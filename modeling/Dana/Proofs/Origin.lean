import Dana.Proofs.Typing

/-!
# Where types come from

The type of an expression is that of a literal, or it was declared: as the type of
a name, whose reference goes once and whose array layers go one at each index, or
as the result of a function. `Env.Offers` lists these. An expression has no other
type (`Expr.infer_offers`), and where one of type void can be written, each of them
is the type of some expression (`Env.Offers.inferred`).
-/

namespace Dana

/-- The type and what is left of it as indices take its array layers off. -/
def Ty.layers : Ty → List Ty
  | .scalar s => [.scalar s]
  | .array elem size => .array elem size :: elem.layers
  | .reference base => [.reference base]

theorem Ty.self_mem_layers (τ : Ty) : τ ∈ τ.layers := by
  cases τ <;> simp [layers]

/-- Some name that is in sight has the type, alone or with indices. -/
def Env.Names (env : Env) (τ : Ty) : Prop :=
  ∃ x ty, x ≠ "" ∧ env.type? x = some ty ∧ τ ∈ ty.deref.layers

inductive Env.Offers (env : Env) : Ty → Prop
  | int : Offers env .int
  | byte : Offers env .byte
  | bool : Offers env .bool
  | string : Offers env .string
  | name {τ} : env.Names τ → Offers env τ
  | result {f h} : f ≠ "" → env.function? f = some h → Offers env h.resultType

section
variable {env : Env}

/-! ## Types that are inferred are offered -/

theorem Place.mem_layers_of_inferIndexed {name : String} {line : Line} {σ : Ty} : ∀ {es : List Expr} {τ : Ty},
    Place.inferIndexed env name line τ es = .ok σ → σ ∈ τ.layers
  | [], τ, h => by
    rw [inferIndexed] at h
    cases h
    exact Ty.self_mem_layers _
  | e :: es, .array elem size, h => by
    rw [inferIndexed] at h
    obtain ⟨ι, -, h⟩ := bind_eq_ok.mp h
    split at h
    · exact List.mem_cons_of_mem _ (mem_layers_of_inferIndexed h)
    · cases h
  | e :: es, .scalar s, h | e :: es, .reference base, h => by
    rw [inferIndexed] at h
    · cases h
    · simp

theorem Place.infer_names {p : Place} {τ : Ty} (h : p.infer env = .ok τ) : τ = .string ∨ env.Names τ := by
  rw [infer_eq] at h
  by_cases hs : p.isString = true
  · rw [if_pos hs] at h
    exact .inl (Except.ok.inj h).symm
  · rw [if_neg hs] at h
    by_cases hn : p.ident.name = ""
    · rw [if_pos hn] at h
      cases h
    · rw [if_neg hn] at h
      cases hty : env.type? p.ident.name with
      | none =>
        rw [hty] at h
        cases h
      | some ty =>
        rw [hty] at h
        exact .inr ⟨p.ident.name, ty, hn, hty, mem_layers_of_inferIndexed h⟩

theorem Place.infer_offers {p : Place} {τ : Ty} (h : p.infer env = .ok τ) : env.Offers τ := by
  rcases infer_names h with rfl | hn
  · exact .string
  · exact .name hn

theorem Call.infer_offers {c : Call} {τ : Ty} (h : c.infer env = .ok τ) : env.Offers τ := by
  rw [infer_eq] at h
  by_cases hn : c.callee.name = ""
  · rw [if_pos hn] at h
    cases h
  · rw [if_neg hn] at h
    cases hg : env.function? c.callee.name with
    | none =>
      rw [hg] at h
      cases h
    | some g =>
      simp only [hg] at h
      split at h
      · obtain ⟨_, -, h⟩ := bind_eq_ok.mp h
        cases h
        exact .result hn hg
      · cases h

/-- The operands of an operator settle its type by that of the left one. -/
theorem operands_result {x y : Except Fault Ty} {op : String} {line : Line} {k : Ty → Ty} {τ : Ty}
    (h : (do
      let l ← x
      let r ← y
      operandsAgree op l r line
      return k l) = .ok τ) : ∃ l, x = .ok l ∧ τ = k l := by
  obtain ⟨l, hl, h⟩ := bind_eq_ok.mp h
  obtain ⟨r, -, h⟩ := bind_eq_ok.mp h
  obtain ⟨_, -, h⟩ := bind_eq_ok.mp h
  exact ⟨l, hl, (Except.ok.inj h).symm⟩

theorem Expr.infer_offers {e : Expr} {τ : Ty} (h : e.infer env = .ok τ) : env.Offers τ := by
  induction e generalizing τ with
  | const value line =>
    rw [infer] at h
    cases h
    exact .int
  | hex value line | bool value line =>
    rw [infer] at h
    cases h
    exact .byte
  | place p line =>
    rw [infer] at h
    exact Place.infer_offers h
  | call c line =>
    rw [infer] at h
    exact Call.infer_offers h
  | not operand line =>
    cases operand with
    | none =>
      rw [infer] at h
      cases h
    | some e =>
      rw [infer] at h
      obtain ⟨_, -, h⟩ := bind_eq_ok.mp h
      cases h
      exact .bool
  | arith op left right line ihl ihr =>
    cases left with
    | none =>
      cases right with
      | none =>
        rw [infer] at h
        cases h
      | some r =>
        rw [infer] at h
        exact ihr r rfl h
    | some l =>
      cases right with
      | none =>
        rw [infer] at h
        exact ihl l rfl h
      | some r =>
        rw [infer] at h
        obtain ⟨σ, hσ, rfl⟩ := operands_result (k := fun l => l) h
        exact ihl l rfl hσ
  | rel op left right line | logic op left right line =>
    cases left with
    | none =>
      simp only [infer] at h
      cases h
    | some l =>
      cases right with
      | none =>
        simp only [infer] at h
        cases h
      | some r =>
        rw [infer] at h
        obtain ⟨_, -, rfl⟩ := operands_result (k := fun _ => .bool) h
        exact .bool

/-! ## Types that are offered are inferred -/

theorem Place.inferIndexed_of_mem_layers {name : String} {line : Line} {σ : Ty} : ∀ {τ : Ty}, σ ∈ τ.layers →
    ∃ es, Place.inferIndexed env name line τ es = .ok σ
  | .scalar s, h | .reference base, h => by
    obtain rfl := List.mem_singleton.mp h
    exact ⟨[], by rw [inferIndexed]⟩
  | .array elem size, h => by
    rcases List.mem_cons.mp h with rfl | h
    · exact ⟨[], by rw [inferIndexed]⟩
    · obtain ⟨es, hes⟩ := inferIndexed_of_mem_layers h
      refine ⟨.const 0 line :: es, ?_⟩
      rw [inferIndexed, Expr.const, Expr.infer]
      exact hes

theorem Env.Names.inferred {τ : Ty} (h : env.Names τ) : ∃ p : Place, p.infer env = .ok τ := by
  obtain ⟨x, ty, hx, hty, hτ⟩ := h
  have hindexed : ∃ es, Place.inferIndexed env x 0 ty.deref es = .ok τ := Place.inferIndexed_of_mem_layers hτ
  obtain ⟨es, hes⟩ := hindexed
  refine ⟨.indexed x es 0, ?_⟩
  rw [Place.infer_eq]
  simp only [Place.indexed, Bool.false_eq_true, if_false, hx, hty]
  exact hes

/-- An expression of the kind. There is no literal of kind void, so that one has to be given. -/
def Kind.sample (void : Expr) : Kind → Expr
  | .scalar .int => .const 0 0
  | .scalar .byte => .hex 0 0
  | .scalar .bool => .rel .eq (.const 0 0) (.const 0 0) 0
  | .scalar .void => void
  | .array => .place (.string "" 0)

theorem Kind.infer_sample {void : Expr} {υ : Ty} (hv : void.infer env = .ok υ) (hk : υ.kind = .scalar .void)
    (k : Kind) : ∃ τ, (k.sample void).infer env = .ok τ ∧ τ.kind = k := by
  cases k with
  | array => exact ⟨.string, rfl, rfl⟩
  | scalar s =>
    cases s with
    | int => exact ⟨.int, rfl, rfl⟩
    | byte => exact ⟨.byte, rfl, rfl⟩
    | bool => exact ⟨.bool, rfl, rfl⟩
    | void => exact ⟨υ, hv, hk⟩

theorem Call.inferArgs_sample {void : Expr} {υ : Ty} (hv : void.infer env = .ok υ) (hk : υ.kind = .scalar .void)
    {function : String} {line : Line} : ∀ formals : List (String × Ty),
      Call.inferArgs env function line formals (formals.map fun formal => formal.2.kind.sample void) = .ok ()
  | [] => rfl
  | (x, formal) :: formals => by
    obtain ⟨τ, hτ, hkind⟩ := Kind.infer_sample hv hk formal.kind
    rw [List.map_cons, inferArgs, hτ]
    simp only [bind, Except.bind, Ty.agrees, hkind, decide_true, if_true]
    exact inferArgs_sample hv hk formals

theorem Env.Offers.inferred {void : Expr} {υ : Ty} (hv : void.infer env = .ok υ) (hk : υ.kind = .scalar .void)
    {τ : Ty} (h : env.Offers τ) : ∃ e : Expr, e.infer env = .ok τ := by
  cases h with
  | int => exact ⟨.const 0 0, rfl⟩
  | byte => exact ⟨.hex 0 0, rfl⟩
  | bool => exact ⟨.rel .eq (.const 0 0) (.const 0 0) 0, rfl⟩
  | string => exact ⟨.place (.string "" 0), rfl⟩
  | name h =>
    obtain ⟨p, hp⟩ := h.inferred
    exact ⟨.place p, by rw [Expr.place, Expr.infer, hp]⟩
  | @result f g hf hg =>
    have hargs : Call.inferArgs env f 0 g.formals (g.formals.map fun formal => formal.2.kind.sample void) = .ok () :=
      Call.inferArgs_sample hv hk g.formals
    refine ⟨.call f (g.formals.map fun formal => formal.2.kind.sample void) 0, ?_⟩
    rw [Expr.call, Expr.infer, Call.infer_eq]
    simp only [hf, if_false, hg, List.length_map, g.arity_eq, if_true, hargs]
    rfl

end

end Dana
