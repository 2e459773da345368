import Dana.Proofs.Table

/-!
# Types by rule

The rules for expressions, places and calls, over the variables in sight, frame
by frame, and the functions. They are written without the checker, and the
checker infers a type exactly where they give one (`Expr.infer_iff`).
-/

namespace Dana

/-! ## Induction over expressions -/

/-- Induction with the parts of an expression as hypotheses, those of places and
calls included. -/
@[induction_eliminator]
theorem Expr.induction {P : Expr → Prop}
    (const : ∀ value line, P ⟨.const value, line⟩)
    (hex : ∀ value line, P ⟨.hex value, line⟩)
    (bool : ∀ value line, P ⟨.bool value, line⟩)
    (place : ∀ p line, (∀ e ∈ p.indices, P e) → P ⟨.place p, line⟩)
    (call : ∀ c line, (∀ e ∈ c.args, P e) → P ⟨.call c, line⟩)
    (not : ∀ operand line, (∀ e ∈ operand, P e) → P ⟨.not operand, line⟩)
    (arith : ∀ op left right line, (∀ e ∈ left, P e) → (∀ e ∈ right, P e) → P ⟨.arith op left right, line⟩)
    (rel : ∀ op left right line, (∀ e ∈ left, P e) → (∀ e ∈ right, P e) → P ⟨.rel op left right, line⟩)
    (logic : ∀ op left right line, (∀ e ∈ left, P e) → (∀ e ∈ right, P e) → P ⟨.logic op left right, line⟩) :
    ∀ e, P e :=
  ofExpr
where
  ofExpr : ∀ e, P e
    | ⟨.const _, _⟩ => const ..
    | ⟨.hex _, _⟩ => hex ..
    | ⟨.bool _, _⟩ => bool ..
    | ⟨.place p, _⟩ => place _ _ (ofPlace p)
    | ⟨.call c, _⟩ => call _ _ (ofCall c)
    | ⟨.not operand, _⟩ => not _ _ (ofOption operand)
    | ⟨.arith _ left right, _⟩ => arith _ _ _ _ (ofOption left) (ofOption right)
    | ⟨.rel _ left right, _⟩ => rel _ _ _ _ (ofOption left) (ofOption right)
    | ⟨.logic _ left right, _⟩ => logic _ _ _ _ (ofOption left) (ofOption right)
  termination_by structural e => e
  ofPlace : ∀ p : Place, ∀ e ∈ p.indices, P e
    | ⟨_, indices, _, _⟩ => ofList indices
  termination_by structural p => p
  ofCall : ∀ c : Call, ∀ e ∈ c.args, P e
    | ⟨_, args, _⟩ => ofList args
  termination_by structural c => c
  ofOption : ∀ o : Option Expr, ∀ e ∈ o, P e
    | none => by simp
    | some e => by simpa using ofExpr e
  termination_by structural o => o
  ofList : ∀ es : List Expr, ∀ e ∈ es, P e
    | [] => by simp
    | e :: es => by simpa using ⟨ofExpr e, ofList es⟩
  termination_by structural es => es

/-! ## Contexts -/

/-- The types of the variables of one scope. -/
abbrev Frame := String → Option Ty

/-- What a piece of program is checked in. The frames inside the global one come
innermost first. -/
structure Context where
  inner : List Frame
  global : Frame
  functions : String → Option Header
  inLoop : Bool

namespace Context

/-- The type a name stands for: that of the innermost variable of the name, or
the result of the function. -/
def type? (Γ : Context) (x : String) : Option Ty :=
  (Γ.inner.findSome? fun fr => fr x).or ((Γ.global x).or ((Γ.functions x).map Header.resultType))

end Context

/-! ## Rules -/

mutual

inductive Expr.HasType (Γ : Context) : Expr → Ty → Prop
  | const {value line} : Expr.HasType Γ ⟨.const value, line⟩ .int
  | hex {value line} : Expr.HasType Γ ⟨.hex value, line⟩ .byte
  | bool {value line} : Expr.HasType Γ ⟨.bool value, line⟩ .byte
  | place {p line τ} : Place.HasType Γ p τ → Expr.HasType Γ ⟨.place p, line⟩ τ
  | call {c line τ} : Call.HasType Γ c τ → Expr.HasType Γ ⟨.call c, line⟩ τ
  | not {e line τ} : Expr.HasType Γ e τ → Expr.HasType Γ ⟨.not (some e), line⟩ .bool
  | arith {op left right line τ σ} : Expr.HasType Γ left τ → Expr.HasType Γ right σ → τ.kind = σ.kind →
      Expr.HasType Γ ⟨.arith op (some left) (some right), line⟩ τ
  | arithLeft {op e line τ} : Expr.HasType Γ e τ → Expr.HasType Γ ⟨.arith op (some e) none, line⟩ τ
  | arithRight {op e line τ} : Expr.HasType Γ e τ → Expr.HasType Γ ⟨.arith op none (some e), line⟩ τ
  | rel {op left right line τ σ} : Expr.HasType Γ left τ → Expr.HasType Γ right σ → τ.kind = σ.kind →
      Expr.HasType Γ ⟨.rel op (some left) (some right), line⟩ .bool
  | logic {op left right line τ σ} : Expr.HasType Γ left τ → Expr.HasType Γ right σ → τ.kind = σ.kind →
      Expr.HasType Γ ⟨.logic op (some left) (some right), line⟩ .bool

inductive Place.HasType (Γ : Context) : Place → Ty → Prop
  | string {ident indices line} : Place.HasType Γ ⟨ident, indices, true, line⟩ .string
  | var {ident indices line τ σ} : ident.name ≠ "" → Γ.type? ident.name = some τ →
      Place.Indexed Γ τ.deref indices σ → Place.HasType Γ ⟨ident, indices, false, line⟩ σ

/-- The indices lead from the first type to the second, one array at each. -/
inductive Place.Indexed (Γ : Context) : Ty → List Expr → Ty → Prop
  | nil {τ} : Place.Indexed Γ τ [] τ
  | cons {elem size e es ι τ} : Expr.HasType Γ e ι → ι.kind = .scalar .int → Place.Indexed Γ elem es τ →
      Place.Indexed Γ (.array elem size) (e :: es) τ

inductive Call.HasType (Γ : Context) : Call → Ty → Prop
  | call {callee args line h} : callee.name ≠ "" → Γ.functions callee.name = some h →
      Call.Fits Γ h.formals args → Call.HasType Γ ⟨callee, args, line⟩ h.resultType

/-- There is an argument of the right kind for each parameter, and no other. -/
inductive Call.Fits (Γ : Context) : List (String × Ty) → List Expr → Prop
  | nil : Call.Fits Γ [] []
  | cons {x formal formals e es τ} : Expr.HasType Γ e τ → formal.kind = τ.kind → Call.Fits Γ formals es →
      Call.Fits Γ ((x, formal) :: formals) (e :: es)

end

/-! ## Inference finds the types of the rules -/

theorem Place.infer_eq (env : Env) (p : Place) :
    p.infer env =
      if p.isString then .ok .string
      else if p.ident.name = "" then .error ⟨.malformed "l-value", p.line⟩
      else
        match env.type? p.ident.name with
        | none => .error ⟨.undeclaredVariable p.ident.name, p.line⟩
        | some ty => Place.inferIndexed env p.ident.name p.line ty.deref p.indices := by
  obtain ⟨ident, indices, isString, line⟩ := p
  rfl

theorem Call.infer_eq (env : Env) (c : Call) :
    c.infer env =
      if c.callee.name = "" then .error ⟨.malformed "function call", c.line⟩
      else
        match env.function? c.callee.name with
        | none => .error ⟨.undefinedFunction c.callee.name, c.line⟩
        | some h =>
          if c.args.length = h.arity then do
            Call.inferArgs env c.callee.name c.line h.formals c.args
            return h.resultType
          else .error ⟨.arity c.callee.name h.arity c.args.length, c.line⟩ := by
  obtain ⟨callee, args, line⟩ := c
  rfl

theorem Header.arity_eq (h : Header) : h.arity = h.formals.length := by
  unfold arity formals
  induction h.groups with
  | nil => rfl
  | cons g gs ih => simp [ih]

section
variable {env : Env} {Γ : Context} (ht : ∀ x, env.type? x = Γ.type? x) (hf : ∀ x, env.function? x = Γ.functions x)

theorem operands_ok {left right : Expr} {op : String} {line : Line} {k : Ty → Ty} {τ : Ty}
    (hl : ∀ {σ}, left.infer env = .ok σ ↔ left.HasType Γ σ)
    (hr : ∀ {ρ}, right.infer env = .ok ρ ↔ right.HasType Γ ρ) :
    (do
      let l ← left.infer env
      let r ← right.infer env
      operandsAgree op l r line
      return k l) = .ok τ ↔
      ∃ σ ρ, left.HasType Γ σ ∧ right.HasType Γ ρ ∧ σ.kind = ρ.kind ∧ τ = k σ := by
  have hagree : ∀ {σ ρ : Ty} {x : Unit}, operandsAgree op σ ρ line = .ok x ↔ σ.kind = ρ.kind := by
    simp [operandsAgree, Ty.agrees]
  simp only [bind_eq_ok, hl, hr, hagree]
  constructor
  · rintro ⟨σ, hσ, ρ, hρ, -, hk, hτ⟩
    exact ⟨σ, ρ, hσ, hρ, hk, (Except.ok.inj hτ).symm⟩
  · rintro ⟨σ, ρ, hσ, hρ, hk, rfl⟩
    exact ⟨σ, hσ, ρ, hρ, (), hk, rfl⟩

theorem Place.inferIndexed_iff {name : String} {line : Line} {σ : Ty} : ∀ {es : List Expr} {τ : Ty},
    (∀ e ∈ es, ∀ {τ}, e.infer env = .ok τ ↔ e.HasType Γ τ) →
      (Place.inferIndexed env name line τ es = .ok σ ↔ Place.Indexed Γ τ es σ)
  | [], τ, _ => by
    rw [inferIndexed, Except.ok.injEq]
    constructor
    · rintro rfl; exact .nil
    · rintro ⟨⟩; rfl
  | e :: es, .scalar s, _ => by
    simp only [inferIndexed, reduceCtorEq, false_iff]
    rintro ⟨⟩
  | e :: es, .reference base, _ => by
    simp only [inferIndexed, reduceCtorEq, false_iff]
    rintro ⟨⟩
  | e :: es, .array elem size, ih => by
    have ihs : Place.inferIndexed env name line elem es = .ok σ ↔ Place.Indexed Γ elem es σ :=
      inferIndexed_iff fun e' he' => ih e' (List.mem_cons_of_mem _ he')
    simp only [inferIndexed, bind_eq_ok, Ty.agrees, decide_eq_true_eq]
    constructor
    · rintro ⟨ι, he, h⟩
      split at h
      · rename_i hk
        exact .cons ((ih e (by simp)).mp he) hk (ihs.mp h)
      · cases h
    · intro h
      cases h with
      | @cons _ _ _ _ ι _ he hk h =>
        exact ⟨ι, (ih e (by simp)).mpr he, (if_pos hk).trans (ihs.mpr h)⟩

theorem Call.inferArgs_iff {function : String} {line : Line} : ∀ {formals : List (String × Ty)} {es : List Expr},
    (∀ e ∈ es, ∀ {τ}, e.infer env = .ok τ ↔ e.HasType Γ τ) →
      (es.length = formals.length ∧ Call.inferArgs env function line formals es = .ok () ↔
        Call.Fits Γ formals es)
  | [], [], _ => by simpa [inferArgs] using Call.Fits.nil
  | [], e :: es, _ => by
    constructor
    · intro h; simp at h
    · rintro ⟨⟩
  | (x, formal) :: formals, [], _ => by
    constructor
    · intro h; simp at h
    · rintro ⟨⟩
  | (x, formal) :: formals, e :: es, ih => by
    have ihs : es.length = formals.length ∧ Call.inferArgs env function line formals es = .ok () ↔
        Call.Fits Γ formals es := inferArgs_iff fun e' he' => ih e' (List.mem_cons_of_mem _ he')
    simp only [inferArgs, bind_eq_ok, Ty.agrees, decide_eq_true_eq, List.length_cons, Nat.add_right_cancel_iff]
    constructor
    · rintro ⟨hl, τ, he, h⟩
      split at h
      · rename_i hk
        exact .cons ((ih e (by simp)).mp he) hk (ihs.mp ⟨hl, h⟩)
      · cases h
    · intro h
      cases h with
      | @cons _ _ _ _ _ τ he hk h =>
        obtain ⟨hl, h⟩ := ihs.mpr h
        exact ⟨hl, τ, (ih e (by simp)).mpr he, (if_pos hk).trans h⟩

include ht in
theorem Place.infer_iff_of {p : Place} {τ : Ty} (ih : ∀ e ∈ p.indices, ∀ {τ}, e.infer env = .ok τ ↔ e.HasType Γ τ) :
    p.infer env = .ok τ ↔ p.HasType Γ τ := by
  obtain ⟨ident, indices, isString, line⟩ := p
  cases isString with
  | true =>
    simp only [Place.infer, if_true, Except.ok.injEq]
    constructor
    · rintro rfl; exact .string
    · rintro ⟨⟩; rfl
  | false =>
    simp only [Place.infer, Bool.false_eq_true, if_false, ht]
    constructor
    · intro h
      split at h
      · cases h
      · rename_i hn
        split at h
        · cases h
        · rename_i σ hσ
          exact .var hn hσ ((inferIndexed_iff ih).mp h)
    · intro h
      cases h with
      | var hn hσ h => simp only [hn, if_false, hσ, (inferIndexed_iff ih).mpr h]

include hf in
theorem Call.infer_iff_of {c : Call} {τ : Ty} (ih : ∀ e ∈ c.args, ∀ {τ}, e.infer env = .ok τ ↔ e.HasType Γ τ) :
    c.infer env = .ok τ ↔ c.HasType Γ τ := by
  obtain ⟨callee, args, line⟩ := c
  simp only [Call.infer, hf]
  constructor
  · intro h
    split at h
    · cases h
    · rename_i hn
      split at h
      · cases h
      · rename_i g hg
        split at h
        · rename_i hl
          rw [Header.arity_eq] at hl
          obtain ⟨_, ha, h⟩ := bind_eq_ok.mp h
          cases h
          exact .call hn hg ((inferArgs_iff ih).mp ⟨hl, ha⟩)
        · cases h
  · intro h
    cases h with
    | @call _ _ _ g hn hg h =>
      obtain ⟨hl, ha⟩ : args.length = g.formals.length ∧
        inferArgs env callee.name line g.formals args = .ok () := (inferArgs_iff ih).mpr h
      simp only [hn, if_false, hg, Header.arity_eq, hl, if_true]
      exact bind_eq_ok.mpr ⟨(), ha, rfl⟩

include ht hf in
theorem Expr.infer_iff {e : Expr} {τ : Ty} : e.infer env = .ok τ ↔ e.HasType Γ τ := by
  induction e generalizing τ with
  | const value line =>
    simp only [Expr.infer, Except.ok.injEq]
    constructor
    · rintro rfl; exact .const
    · rintro ⟨⟩; rfl
  | hex value line =>
    simp only [Expr.infer, Except.ok.injEq]
    constructor
    · rintro rfl; exact .hex
    · rintro ⟨⟩; rfl
  | bool value line =>
    simp only [Expr.infer, Except.ok.injEq]
    constructor
    · rintro rfl; exact .bool
    · rintro ⟨⟩; rfl
  | place p line ih =>
    rw [Expr.infer, Place.infer_iff_of ht ih]
    constructor
    · intro h; exact .place h
    · intro h
      cases h with
      | place h => exact h
  | call c line ih =>
    rw [Expr.infer, Call.infer_iff_of hf ih]
    constructor
    · intro h; exact .call h
    · intro h
      cases h with
      | call h => exact h
  | not operand line ih =>
    cases operand with
    | none =>
      simp only [Expr.infer, reduceCtorEq, false_iff]
      rintro ⟨⟩
    | some e =>
      simp only [Expr.infer, bind_eq_ok, ih e rfl]
      constructor
      · rintro ⟨σ, h, he⟩; cases he; exact .not h
      · intro h
        cases h with
        | not h => exact ⟨_, h, rfl⟩
  | arith op left right line ihl ihr =>
    cases left with
    | none =>
      cases right with
      | none =>
        simp only [Expr.infer, reduceCtorEq, false_iff]
        rintro ⟨⟩
      | some r =>
        rw [Expr.infer, ihr r rfl]
        constructor
        · intro h; exact .arithRight h
        · intro h
          cases h with
          | arithRight h => exact h
    | some l =>
      cases right with
      | none =>
        rw [Expr.infer, ihl l rfl]
        constructor
        · intro h; exact .arithLeft h
        · intro h
          cases h with
          | arithLeft h => exact h
      | some r =>
        rw [Expr.infer, operands_ok (ihl l rfl) (ihr r rfl)]
        constructor
        · rintro ⟨σ, ρ, hl, hr, hk, rfl⟩; exact .arith hl hr hk
        · intro h
          cases h with
          | arith hl hr hk => exact ⟨_, _, hl, hr, hk, rfl⟩
  | rel op left right line ihl ihr =>
    cases left with
    | none =>
      simp only [Expr.infer, reduceCtorEq, false_iff]
      rintro ⟨⟩
    | some l =>
      cases right with
      | none =>
        simp only [Expr.infer, reduceCtorEq, false_iff]
        rintro ⟨⟩
      | some r =>
        rw [Expr.infer, operands_ok (ihl l rfl) (ihr r rfl)]
        constructor
        · rintro ⟨σ, ρ, hl, hr, hk, rfl⟩; exact .rel hl hr hk
        · intro h
          cases h with
          | rel hl hr hk => exact ⟨_, _, hl, hr, hk, rfl⟩
  | logic op left right line ihl ihr =>
    cases left with
    | none =>
      simp only [Expr.infer, reduceCtorEq, false_iff]
      rintro ⟨⟩
    | some l =>
      cases right with
      | none =>
        simp only [Expr.infer, reduceCtorEq, false_iff]
        rintro ⟨⟩
      | some r =>
        rw [Expr.infer, operands_ok (ihl l rfl) (ihr r rfl)]
        constructor
        · rintro ⟨σ, ρ, hl, hr, hk, rfl⟩; exact .logic hl hr hk
        · intro h
          cases h with
          | logic hl hr hk => exact ⟨_, _, hl, hr, hk, rfl⟩

include ht hf in
theorem Place.infer_iff {p : Place} {τ : Ty} : p.infer env = .ok τ ↔ p.HasType Γ τ :=
  Place.infer_iff_of ht fun _ _ => Expr.infer_iff ht hf

include ht hf in
theorem Call.infer_iff {c : Call} {τ : Ty} : c.infer env = .ok τ ↔ c.HasType Γ τ :=
  Call.infer_iff_of hf fun _ _ => Expr.infer_iff ht hf

include ht hf in
theorem Expr.inferCondition_iff {e : Expr} {x : Unit} :
    e.inferCondition env = .ok x ↔ ∃ τ, e.HasType Γ τ ∧ τ.kind = .scalar .bool := by
  have hb : Ty.bool.kind = .scalar .bool := rfl
  simp [inferCondition, bind_eq_ok, Expr.infer_iff ht hf, Ty.agrees, hb]

theorem arrayObjection_eq_none {τ σ : Ty} : arrayObjection τ σ = none ↔ τ.isArray = false ∧ σ.isArray = false := by
  unfold arrayObjection
  cases τ.isArray <;> cases σ.isArray <;> simp

theorem Place.inferAssign_eq_ok {target : Place} {value : Expr} {line : Line} {x : Unit} :
    target.inferAssign env value line = .ok x ↔ ∃ τ σ, target.infer env = .ok τ ∧ value.infer env = .ok σ ∧
      τ.isArray = false ∧ σ.isArray = false ∧ τ.kind = σ.kind := by
  simp only [inferAssign, bind_eq_ok, Ty.agrees]
  constructor
  · rintro ⟨τ, hτ, σ, hσ, h⟩
    split at h
    · cases h
    · rename_i ho
      obtain ⟨hτa, hσa⟩ := arrayObjection_eq_none.mp ho
      exact ⟨τ, σ, hτ, hσ, hτa, hσa, by simpa using h⟩
  · rintro ⟨τ, σ, hτ, hσ, hτa, hσa, hk⟩
    refine ⟨τ, hτ, σ, hσ, ?_⟩
    rw [arrayObjection_eq_none.mpr ⟨hτa, hσa⟩]
    simp [hk]

include ht hf in
theorem Place.inferAssign_iff {target : Place} {value : Expr} {line : Line} {x : Unit} :
    target.inferAssign env value line = .ok x ↔ ∃ τ σ, target.HasType Γ τ ∧ value.HasType Γ σ ∧
      τ.isArray = false ∧ σ.isArray = false ∧ τ.kind = σ.kind := by
  simp only [inferAssign_eq_ok, Place.infer_iff ht hf, Expr.infer_iff ht hf]

end

end Dana
