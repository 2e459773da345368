import Dana.Check.Stmt
import Dana.Proofs.Typing

/-!
# Calls and their arguments

A call asks for its function, then for the number of its arguments, and then for the
arguments from left to right. Each is held against the parameter at its own place, and
the first that does not fit ends the call (`Call.inferArgs_cases`).
-/

namespace Dana

namespace Call

def FitsAt (env : Env) (formals : List (String × Ty)) (args : List Expr) (i : Nat) : Prop :=
  ∃ x formal e τ, formals[i]? = some (x, formal) ∧ args[i]? = some e ∧ e.infer env = .ok τ ∧
    formal.agrees τ = true

/-- The fault that the argument at place `i` of a call to `function` gives: its own, or
else that its type does not agree with that of the parameter. -/
inductive FaultAt (env : Env) (function : String) (line : Line) (formals : List (String × Ty))
    (args : List Expr) (i : Nat) : Fault → Prop
  | own {e f} : args[i]? = some e → e.infer env = .error f → FaultAt env function line formals args i f
  | mismatch {x formal e τ} : formals[i]? = some (x, formal) → args[i]? = some e → e.infer env = .ok τ →
      formal.agrees τ = false →
      FaultAt env function line formals args i ⟨.argumentType function x formal τ, line⟩

section
variable {env : Env} {function : String} {line : Line}

theorem FaultAt.lt_length {formals : List (String × Ty)} {args : List Expr} {i : Nat} {f : Fault}
    (h : FaultAt env function line formals args i f) : i < args.length := by
  cases h with
  | own he _ => exact (List.getElem?_eq_some_iff.mp he).1
  | mismatch _ he _ _ => exact (List.getElem?_eq_some_iff.mp he).1

theorem FaultAt.not_fitsAt {formals : List (String × Ty)} {args : List Expr} {i : Nat} {f : Fault}
    (h : FaultAt env function line formals args i f) : ¬ FitsAt env formals args i := by
  intro hfits
  obtain ⟨x, formal, e, τ, hx, he, hτ, hagree⟩ := hfits
  cases h with
  | own he' hf =>
    rw [he] at he'
    cases he'
    rw [hτ] at hf
    cases hf
  | mismatch hx' he' hτ' hne =>
    rw [hx] at hx'
    rw [he] at he'
    cases hx'
    cases he'
    rw [hτ] at hτ'
    cases hτ'
    rw [hagree] at hne
    cases hne

theorem FaultAt.succ {p : String × Ty} {formals : List (String × Ty)} {e : Expr} {args : List Expr} {i : Nat}
    {f : Fault} (h : FaultAt env function line formals args i f) :
    FaultAt env function line (p :: formals) (e :: args) (i + 1) f := by
  cases h with
  | own he hf => exact .own he hf
  | mismatch hx he hτ hne => exact .mismatch hx he hτ hne

theorem fitsAt_zero {x : String} {formal τ : Ty} {formals : List (String × Ty)} {e : Expr} {args : List Expr}
    (he : e.infer env = .ok τ) (h : formal.agrees τ = true) :
    FitsAt env ((x, formal) :: formals) (e :: args) 0 :=
  ⟨x, formal, e, τ, rfl, rfl, he, h⟩

theorem inferArgs_cases : ∀ {formals : List (String × Ty)} {args : List Expr}, args.length = formals.length →
    (Call.inferArgs env function line formals args = .ok () ∧ ∀ i < args.length, FitsAt env formals args i) ∨
    ∃ i f, Call.inferArgs env function line formals args = .error f ∧ (∀ j < i, FitsAt env formals args j) ∧
      FaultAt env function line formals args i f
  | [], [], _ => by
    refine .inl ⟨?_, by simp⟩
    rw [inferArgs]
    simp
  | (x, formal) :: formals, e :: args, hlen => by
    rw [inferArgs]
    cases he : e.infer env with
    | error f => exact .inr ⟨0, f, rfl, by simp, .own rfl he⟩
    | ok τ =>
      simp only [bind, Except.bind]
      by_cases hagree : formal.agrees τ = true
      · rw [if_pos hagree]
        have h₀ : FitsAt env ((x, formal) :: formals) (e :: args) 0 := fitsAt_zero he hagree
        rcases inferArgs_cases (Nat.succ.inj hlen) with ⟨hok, hfits⟩ | ⟨i, f, hf, hfits, hat⟩
        · exact .inl ⟨hok, Nat.forall_lt_succ_left.mpr ⟨h₀, hfits⟩⟩
        · exact .inr ⟨i + 1, f, hf, Nat.forall_lt_succ_left.mpr ⟨h₀, hfits⟩, hat.succ⟩
      · rw [if_neg hagree]
        exact .inr ⟨0, _, rfl, by simp, .mismatch rfl rfl he (Bool.not_eq_true _ ▸ hagree)⟩
  | [], _ :: _, hlen | _ :: _, [], hlen => by simp at hlen

theorem infer_of_function {c : Call} {h : Header} (hc : c.callee.name ≠ "")
    (hh : env.function? c.callee.name = some h) :
    c.infer env =
      if c.args.length = h.arity then do
        Call.inferArgs env c.callee.name c.line h.formals c.args
        return h.resultType
      else .error ⟨.arity c.callee.name h.arity c.args.length, c.line⟩ := by
  rw [infer_eq, if_neg hc]
  simp only [hh]

end

end Call

theorem first_failing_iff {P : Nat → Prop} {i k : Nat} (hbefore : ∀ j < i, P j) (hi : ¬ P i) :
    (∀ j < k, P j) ∧ ¬ P k ↔ k = i := by
  constructor
  · intro hk
    apply Nat.le_antisymm
    · exact Nat.le_of_not_lt fun hlt => hi (hk.1 i hlt)
    · exact Nat.le_of_not_lt fun hlt => hk.2 (hbefore k hlt)
  · intro hk
    subst hk
    exact ⟨hbefore, hi⟩

/-! ## Main result -/

/-- **Calls, exactly.** A call has no effect but its result. Without a function of its name
it is undefined, and with a number of arguments that is not that of the parameters the
arguments do not matter. Otherwise it is of the result type if and only if each argument
fits, and if not there is just one place up to which all fit but which does not, and the
fault is the one from there. -/
theorem call_exact (t : Table) {c : Call} (hc : c.callee.name ≠ "") :
    (∀ line, (Expr.check ⟨.call c, line⟩).run t = ⟨c.infer t.env, t, []⟩) ∧
    (t.function? c.callee.name = none →
      c.infer t.env = .error ⟨.undefinedFunction c.callee.name, c.line⟩) ∧
    ∀ h, t.function? c.callee.name = some h →
      h.arity = h.formals.length ∧
      (c.args.length ≠ h.arity →
        c.infer t.env = .error ⟨.arity c.callee.name h.arity c.args.length, c.line⟩) ∧
      (c.args.length = h.arity →
        (∀ τ, c.infer t.env = .ok τ ↔
          (∀ i < h.arity, Call.FitsAt t.env h.formals c.args i) ∧ τ = h.result.getD .void) ∧
        ∀ f, c.infer t.env = .error f →
          ∃ i < h.arity, Call.FaultAt t.env c.callee.name c.line h.formals c.args i f ∧
            ∀ k, (∀ j < k, Call.FitsAt t.env h.formals c.args j) ∧ ¬ Call.FitsAt t.env h.formals c.args k ↔
              k = i) := by
  refine ⟨fun line => by rw [Expr.check, Check.run, Check.ask, Expr.infer], fun hnone => ?_, fun h hh => ?_⟩
  · rw [Call.infer_eq, if_neg hc]
    simp only [Table.env, hnone]
  · have hinfer := @Call.infer_of_function t.env c h hc hh
    refine ⟨h.arity_eq, fun hne => by rw [hinfer, if_neg hne], fun hlen => ?_⟩
    rw [hinfer, if_pos hlen, ← hlen]
    have hformals : c.args.length = h.formals.length := hlen.trans h.arity_eq
    rcases @Call.inferArgs_cases t.env c.callee.name c.line _ _ hformals with
      ⟨hok, hfits⟩ | ⟨i, f, herr, hbefore, hat⟩
    · simp only [hok, bind, Except.bind]
      refine ⟨fun τ => ⟨fun hτ => ⟨hfits, (Except.ok.inj hτ).symm⟩, fun hτ => ?_⟩, fun f hf => by cases hf⟩
      rw [hτ.2]
      rfl
    · simp only [herr, bind, Except.bind]
      refine ⟨fun τ => ⟨fun hτ => ?_, fun hτ => ?_⟩, fun f' hf' => ?_⟩
      · cases hτ
      · exact absurd (hτ.1 i hat.lt_length) hat.not_fitsAt
      · cases hf'
        exact ⟨i, hat.lt_length, hat, fun k => first_failing_iff hbefore hat.not_fitsAt⟩

def grouped : Header :=
  .make "f" (some .byte) [.ofNames ["a", "b"] .int false, .ofNames [] .bool false, .ofNames ["c"] .byte true] 1

def grouping : Table :=
  ((Check.register grouped).run .empty).table

/-- A call in which the last argument does not fit, though the call in there is right. -/
def misfit : Call :=
  ⟨⟨"f", 3⟩, [.arith .add (.const 1 3) (.const 2 3) 3, .const 4 3,
    .not (.call "f" [.const 5 4, .const 6 4, .hex 7 4] 4) 5], 3⟩

theorem call_exact_misfit :
    misfit.callee.name ≠ "" ∧ grouping.function? misfit.callee.name = some grouped ∧
    misfit.args.length = grouped.arity ∧
    misfit.infer grouping.env = .error ⟨.argumentType "f" "c" (.reference .byte) .bool, 3⟩ ∧
    ∃ i < grouped.arity, Call.FaultAt grouping.env "f" 3 grouped.formals misfit.args i
        ⟨.argumentType "f" "c" (.reference .byte) .bool, 3⟩ ∧
      ∀ k, (∀ j < k, Call.FitsAt grouping.env grouped.formals misfit.args j) ∧
        ¬ Call.FitsAt grouping.env grouped.formals misfit.args k ↔ k = i := by
  have hc : misfit.callee.name ≠ "" := by decide
  have hf : grouping.function? misfit.callee.name = some grouped := by decide
  have herr : misfit.infer grouping.env = .error ⟨.argumentType "f" "c" (.reference .byte) .bool, 3⟩ := rfl
  exact ⟨hc, hf, rfl, herr, (((call_exact grouping hc).2.2 grouped hf).2.2 rfl).2 _ herr⟩

end Dana
