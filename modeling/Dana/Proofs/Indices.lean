import Dana.Proofs.Arguments
import Dana.Proofs.Origin

/-!
# Places and their indices

A place starts from the declared type of its name, under one reference. Each index takes
one array layer off, from left to right, and has to be an integer. An index for which no
layer is left ends this, whatever stands in it (`Place.inferIndexed_cases`).
-/

namespace Dana

/-- The number of array layers that a type has from the outside. -/
def Ty.rank : Ty → Nat
  | .array elem _ => elem.rank + 1
  | .scalar _ | .reference _ => 0

theorem Ty.length_layers (τ : Ty) : τ.layers.length = τ.rank + 1 := by
  induction τ with
  | scalar s => rfl
  | array elem size ih => rw [layers, List.length_cons, ih, rank]
  | reference base => rfl

theorem Ty.exists_layer {τ : Ty} {n : Nat} (h : n ≤ τ.rank) : ∃ σ, τ.layers[n]? = some σ := by
  have hn : n < τ.layers.length := by
    rw [length_layers]
    exact Nat.lt_succ_of_le h
  exact ⟨_, List.getElem?_eq_getElem hn⟩

namespace Place

def FitsAt (env : Env) (τ : Ty) (indices : List Expr) (i : Nat) : Prop :=
  i < τ.rank ∧ ∃ e ι, indices[i]? = some e ∧ e.infer env = .ok ι ∧ ι.kind = .scalar .int

/-- The fault that the index at place `i` gives. Where no layer is left, nothing is asked
of the index. -/
inductive FaultAt (env : Env) (name : String) (line : Line) (τ : Ty) (indices : List Expr) (i : Nat) :
    Fault → Prop
  | noLayer {e} : indices[i]? = some e → τ.rank ≤ i → FaultAt env name line τ indices i ⟨.notAnArray name, line⟩
  | own {e f} : i < τ.rank → indices[i]? = some e → e.infer env = .error f →
      FaultAt env name line τ indices i f
  | notInt {e ι} : i < τ.rank → indices[i]? = some e → e.infer env = .ok ι → ι.kind ≠ .scalar .int →
      FaultAt env name line τ indices i ⟨.indexType name ι, e.line⟩

section
variable {env : Env} {name : String} {line : Line} {τ : Ty} {indices : List Expr}

theorem FaultAt.lt_length {i : Nat} {f : Fault} (h : FaultAt env name line τ indices i f) : i < indices.length := by
  cases h with
  | noLayer he _ => exact (List.getElem?_eq_some_iff.mp he).1
  | own _ he _ => exact (List.getElem?_eq_some_iff.mp he).1
  | notInt _ he _ _ => exact (List.getElem?_eq_some_iff.mp he).1

theorem FaultAt.not_fitsAt {i : Nat} {f : Fault} (h : FaultAt env name line τ indices i f) :
    ¬ FitsAt env τ indices i := by
  intro hfits
  obtain ⟨hi, e, ι, he, hι, hint⟩ := hfits
  cases h with
  | noLayer _ hle => exact absurd hi (Nat.not_lt.mpr hle)
  | own _ he' hf =>
    rw [he] at he'
    cases he'
    rw [hι] at hf
    cases hf
  | notInt _ he' hι' hne =>
    rw [he] at he'
    cases he'
    rw [hι] at hι'
    cases hι'
    exact hne hint

theorem FaultAt.eq_notAnArray {i : Nat} {f : Fault} (h : FaultAt env name line τ indices i f) (hi : τ.rank ≤ i) :
    f = ⟨.notAnArray name, line⟩ := by
  cases h with
  | noLayer _ _ => rfl
  | own hlt _ _ => exact absurd hlt (Nat.not_lt.mpr hi)
  | notInt hlt _ _ _ => exact absurd hlt (Nat.not_lt.mpr hi)

/-! What holds of the indices after the first holds of them one layer further out. -/

theorem FitsAt.succ {size : Option UInt32} {e : Expr} {i : Nat} (h : FitsAt env τ indices i) :
    FitsAt env (.array τ size) (e :: indices) (i + 1) := by
  obtain ⟨hi, hrest⟩ := h
  exact ⟨Nat.succ_lt_succ hi, hrest⟩

theorem FaultAt.succ {size : Option UInt32} {e : Expr} {i : Nat} {f : Fault}
    (h : FaultAt env name line τ indices i f) : FaultAt env name line (.array τ size) (e :: indices) (i + 1) f := by
  cases h with
  | noLayer he hle => exact .noLayer he (Nat.succ_le_succ hle)
  | own hlt he hf => exact .own (Nat.succ_lt_succ hlt) he hf
  | notInt hlt he hι hne => exact .notInt (Nat.succ_lt_succ hlt) he hι hne

theorem fitsAt_all_iff : (∀ i < indices.length, FitsAt env τ indices i) ↔
    indices.length ≤ τ.rank ∧ ∀ e ∈ indices, ∃ ι, e.infer env = .ok ι ∧ ι.kind = .scalar .int := by
  constructor
  · intro h
    refine ⟨Nat.le_of_not_lt fun hlt => Nat.lt_irrefl _ (h _ hlt).1, fun e he => ?_⟩
    obtain ⟨i, hi⟩ := List.mem_iff_getElem?.mp he
    obtain ⟨-, e', ι, he', hι⟩ := h i (List.getElem?_eq_some_iff.mp hi).1
    rw [hi] at he'
    cases he'
    exact ⟨ι, hι⟩
  · intro h i hi
    have hget : indices[i]? = some indices[i] := List.getElem?_eq_getElem hi
    obtain ⟨ι, hι⟩ := h.2 indices[i] (List.getElem_mem hi)
    exact ⟨Nat.lt_of_lt_of_le hi h.1, indices[i], ι, hget, hι⟩

end

section
variable {env : Env} {name : String} {line : Line}

theorem inferIndexed_cases : ∀ {es : List Expr} {τ : Ty},
    (∃ σ, inferIndexed env name line τ es = .ok σ ∧ τ.layers[es.length]? = some σ ∧
      ∀ i < es.length, FitsAt env τ es i) ∨
    ∃ i f, inferIndexed env name line τ es = .error f ∧ (∀ j < i, FitsAt env τ es j) ∧
      FaultAt env name line τ es i f
  | [], τ => by
    refine .inl ⟨τ, by rw [inferIndexed], ?_, by simp⟩
    cases τ <;> rfl
  | e :: es, .array elem size => by
    rw [inferIndexed]
    cases he : e.infer env with
    | error f => exact .inr ⟨0, f, rfl, by simp, .own (Nat.succ_pos _) rfl he⟩
    | ok ι =>
      simp only [bind, Except.bind, Ty.agrees, decide_eq_true_eq]
      by_cases hint : ι.kind = Ty.int.kind
      · rw [if_pos hint]
        have h₀ : FitsAt env (.array elem size) (e :: es) 0 := ⟨Nat.succ_pos _, e, ι, rfl, he, hint⟩
        rcases @inferIndexed_cases es elem with ⟨σ, hok, hσ, hfits⟩ | ⟨i, f, hf, hfits, hat⟩
        · exact .inl ⟨σ, hok, hσ, Nat.forall_lt_succ_left.mpr ⟨h₀, fun j hj => (hfits j hj).succ⟩⟩
        · exact .inr ⟨i + 1, f, hf, Nat.forall_lt_succ_left.mpr ⟨h₀, fun j hj => (hfits j hj).succ⟩, hat.succ⟩
      · rw [if_neg hint]
        exact .inr ⟨0, _, rfl, by simp, .notInt (Nat.succ_pos _) rfl he hint⟩
  | e :: es, .scalar s | e :: es, .reference base => by
    refine .inr ⟨0, ⟨.notAnArray name, line⟩, ?_, by simp, .noLayer rfl (Nat.le_refl 0)⟩
    rw [inferIndexed]
    simp

theorem inferIndexed_ok_iff {es : List Expr} {τ σ : Ty} : inferIndexed env name line τ es = .ok σ ↔
    es.length ≤ τ.rank ∧ (∀ e ∈ es, ∃ ι, e.infer env = .ok ι ∧ ι.kind = .scalar .int) ∧
      τ.layers[es.length]? = some σ := by
  rw [← and_assoc, ← fitsAt_all_iff]
  rcases @inferIndexed_cases env name line es τ with ⟨ρ, hok, hρ, hfits⟩ | ⟨i, f, herr, -, hat⟩
  · rw [hok, hρ, Except.ok.injEq, Option.some.injEq]
    exact ⟨fun h => ⟨hfits, h⟩, fun h => h.2⟩
  · rw [herr]
    constructor
    · intro h
      cases h
    · intro h
      exact absurd (h.1 i hat.lt_length) hat.not_fitsAt

theorem inferIndexed_error {es : List Expr} {τ : Ty} {f : Fault} (h : inferIndexed env name line τ es = .error f) :
    ∃ i < es.length, FaultAt env name line τ es i f ∧
      ∀ k, (∀ j < k, FitsAt env τ es j) ∧ ¬ FitsAt env τ es k ↔ k = i := by
  rcases @inferIndexed_cases env name line es τ with ⟨σ, hok, -⟩ | ⟨i, g, herr, hbefore, hat⟩
  · rw [hok] at h
    cases h
  · rw [herr] at h
    cases h
    exact ⟨i, hat.lt_length, hat, fun k => first_failing_iff hbefore hat.not_fitsAt⟩

theorem inferIndexed_beyond {es rest : List Expr} {τ : Ty} (hlen : es.length = τ.rank)
    (hes : ∀ e ∈ es, ∃ ι, e.infer env = .ok ι ∧ ι.kind = .scalar .int) (hrest : rest ≠ []) :
    inferIndexed env name line τ (es ++ rest) = .error ⟨.notAnArray name, line⟩ := by
  have hlong : τ.rank < (es ++ rest).length := by
    have hpos := List.length_pos_iff.mpr hrest
    rw [List.length_append]
    omega
  have hfits : ∀ j < τ.rank, FitsAt env τ (es ++ rest) j := by
    intro j hj
    have hall := fitsAt_all_iff.mpr ⟨Nat.le_of_eq hlen, hes⟩
    rw [← hlen] at hj
    have hget : (es ++ rest)[j]? = es[j]? := List.getElem?_append_left hj
    unfold FitsAt
    rw [hget]
    exact hall j hj
  cases hr : inferIndexed env name line τ (es ++ rest) with
  | ok σ => exact absurd (inferIndexed_ok_iff.mp hr).1 (Nat.not_le.mpr hlong)
  | error f =>
    obtain ⟨i, -, hat, -⟩ := inferIndexed_error hr
    have hi : τ.rank ≤ i := Nat.le_of_not_lt fun hlt => hat.not_fitsAt (hfits i hlt)
    rw [hat.eq_notAnArray hi]

theorem infer_of_type {p : Place} {τ : Ty} (hs : p.isString = false) (hx : p.ident.name ≠ "")
    (hτ : env.type? p.ident.name = some τ) :
    p.infer env = inferIndexed env p.ident.name p.line τ.deref p.indices := by
  rw [infer_eq, hs, if_neg Bool.false_ne_true, if_neg hx]
  simp only [hτ]

end

end Place

/-! ## Main result -/

/-- **Indices, exactly.** A place that is no string literal and whose name is in sight has
no effect but its result. It has a type if and only if there are no more indices than
array layers and each index is an integer, and the type is then what is under as many
layers. If not, there is just one place up to which all indices fit but which does not,
and the fault is the one from there. Past the last layer it is the same whatever the
indices are. -/
theorem place_exact (t : Table) {p : Place} {e : Entry} (hs : p.isString = false) (hx : p.ident.name ≠ "")
    (he : t.find? p.ident.name = some e) :
    p.check.run t = ⟨p.infer t.env, t, []⟩ ∧
    ((∃ τ, p.infer t.env = .ok τ) ↔
      p.indices.length ≤ e.type.deref.rank ∧
      ∀ i ∈ p.indices, ∃ ι, i.infer t.env = .ok ι ∧ ι.kind = .scalar .int) ∧
    (∀ τ, p.infer t.env = .ok τ → e.type.deref.layers[p.indices.length]? = some τ) ∧
    (∀ f, p.infer t.env = .error f →
      ∃ i < p.indices.length, Place.FaultAt t.env p.ident.name p.line e.type.deref p.indices i f ∧
        ∀ k, (∀ j < k, Place.FitsAt t.env e.type.deref p.indices j) ∧
          ¬ Place.FitsAt t.env e.type.deref p.indices k ↔ k = i) ∧
    ∀ es rest, es.length = e.type.deref.rank →
      (∀ i ∈ es, ∃ ι, i.infer t.env = .ok ι ∧ ι.kind = .scalar .int) → rest ≠ [] →
        Place.infer t.env { p with indices := es ++ rest } = .error ⟨.notAnArray p.ident.name, p.line⟩ := by
  have hτ : t.env.type? p.ident.name = some e.type := congrArg (Option.map Entry.type) he
  have hinfer := Place.infer_of_type hs hx hτ
  refine ⟨rfl, ?_, fun τ h => ?_, fun f hf => ?_, fun es rest hlen hes hrest => ?_⟩
  · rw [hinfer]
    constructor
    · rintro ⟨τ, h⟩
      obtain ⟨hle, hints, -⟩ := Place.inferIndexed_ok_iff.mp h
      exact ⟨hle, hints⟩
    · rintro ⟨hle, hints⟩
      obtain ⟨τ, hlayer⟩ := Ty.exists_layer hle
      exact ⟨τ, Place.inferIndexed_ok_iff.mpr ⟨hle, hints, hlayer⟩⟩
  · rw [hinfer] at h
    exact (Place.inferIndexed_ok_iff.mp h).2.2
  · rw [hinfer] at hf
    exact Place.inferIndexed_error hf
  · have hlonger : Place.infer t.env { p with indices := es ++ rest } =
        Place.inferIndexed t.env p.ident.name p.line e.type.deref (es ++ rest) :=
      Place.infer_of_type (p := { p with indices := es ++ rest }) hs hx hτ
    rw [hlonger]
    exact Place.inferIndexed_beyond hlen hes hrest

def gridded : Table :=
  ((Check.bindName .param "x" (.reference (.array (.array .int (some 3)) none)) 1).run .empty).table

/-- The first index is itself a place with indices, and a name that stands for nothing
comes after the last layer. -/
def offGrid : Place :=
  .indexed "x" [.place (.indexed "x" [.const 0 2, .const 1 2] 2), .const 2 2, .var "y" 3] 2

theorem place_exact_offGrid :
    offGrid.isString = false ∧ offGrid.ident.name ≠ "" ∧
    gridded.find? offGrid.ident.name =
      some (.ofBinding .param "x" (.reference (.array (.array .int (some 3)) none)) 1) ∧
    (Expr.var "y" 3).infer gridded.env = .error ⟨.undeclaredVariable "y", 3⟩ ∧
    offGrid.infer gridded.env = .error ⟨.notAnArray "x", 2⟩ ∧
    ∃ i < 3, Place.FaultAt gridded.env "x" 2 (.array (.array .int (some 3)) none) offGrid.indices i
        ⟨.notAnArray "x", 2⟩ ∧
      ∀ k, (∀ j < k, Place.FitsAt gridded.env (.array (.array .int (some 3)) none) offGrid.indices j) ∧
        ¬ Place.FitsAt gridded.env (.array (.array .int (some 3)) none) offGrid.indices k ↔ k = i := by
  have hs : offGrid.isString = false := rfl
  have hx : offGrid.ident.name ≠ "" := by decide
  have he : gridded.find? offGrid.ident.name =
      some (.ofBinding .param "x" (.reference (.array (.array .int (some 3)) none)) 1) := by decide
  have herr : offGrid.infer gridded.env = .error ⟨.notAnArray "x", 2⟩ := rfl
  exact ⟨hs, hx, he, rfl, herr, (place_exact gridded hs hx he).2.2.2.1 _ herr⟩

end Dana
