import Mathlib.Data.List.Forall2
import Dana.Proofs.Run

/-!
# Two checks side by side

To compare two checks is to run them from tables that are related and to see that they
do related things all the way: both go on or both stop, and then with related faults.
Each action has a rule for this, and `parallel_bind` puts the rules together.
-/

namespace Dana

variable {α β γ δ : Type}

/-- Two values that are related, or two faults that are. -/
inductive Alike (F : Fault → Fault → Prop) (A : α → β → Prop) : Except Fault α → Except Fault β → Prop
  | ok {a b} : A a b → Alike F A (.ok a) (.ok b)
  | error {f g} : F f g → Alike F A (.error f) (.error g)

namespace Alike

variable {F : Fault → Fault → Prop} {A : α → β → Prop} {B : γ → δ → Prop}

theorem refl (x : Except Fault α) : Alike Eq Eq x x := by
  cases x with
  | ok a => exact .ok rfl
  | error f => exact .error rfl

theorem bind {x : Except Fault α} {y : Except Fault β} {k : α → Except Fault γ} {l : β → Except Fault δ}
    (h : Alike F A x y) (hk : ∀ a b, A a b → Alike F B (k a) (l b)) : Alike F B (x >>= k) (y >>= l) := by
  cases h with
  | ok hab => exact hk _ _ hab
  | error hf => exact .error hf

theorem ite {p q : Prop} [Decidable p] [Decidable q] {x x' : Except Fault α} {y y' : Except Fault β}
    (hpq : p ↔ q) (h : Alike F A x y) (h' : Alike F A x' y') :
    Alike F A (if p then x else x') (if q then y else y') := by
  by_cases hp : p
  · rw [if_pos hp, if_pos (hpq.mp hp)]
    exact h
  · rw [if_neg hp, if_neg (mt hpq.mpr hp)]
    exact h'

theorem mono {A' : α → β → Prop} {x : Except Fault α} {y : Except Fault β} (h : Alike F A x y)
    (hA : ∀ a b, A a b → A' a b) : Alike F A' x y := by
  cases h with
  | ok hab => exact .ok (hA _ _ hab)
  | error hf => exact .error hf

theorem eq {x y : Except Fault α} (h : Alike Eq Eq x y) : x = y := by
  cases h with
  | ok hab => rw [hab]
  | error hf => rw [hf]

theorem of_map_eq {x : Except Fault α} {y : Except Fault β} (h : x.map (fun _ => ()) = y.map (fun _ => ()))
    (hA : ∀ a b, x = .ok a → y = .ok b → A a b) : Alike Eq A x y := by
  cases x with
  | ok a =>
    cases y with
    | ok b => exact .ok (hA a b rfl rfl)
    | error g => cases h
  | error f =>
    cases y with
    | ok b => cases h
    | error g =>
      cases h
      exact .error rfl

theorem mapError_eq {f g : Fault → Fault} {x y : Except Fault Unit}
    (h : Alike (fun a b => f a = g b) (fun _ _ => True) x y) : x.mapError f = y.mapError g := by
  cases h with
  | ok _ => rfl
  | error hf => exact congrArg Except.error hf

end Alike

/-- What two checks are compared by, apart from what they give: the faults they stop at,
the tables they leave there, and what they write. -/
structure Likeness where
  fault : Fault → Fault → Prop
  stuck : Table → Table → Prop
  journal : List Event → List Event → Prop
  journal_nil : journal [] []
  journal_append : ∀ {i i' j j'}, journal i i' → journal j j' → journal (i ++ j) (i' ++ j')

inductive Outcome.Alike (L : Likeness) (A : α → β → Prop) (R : Table → Table → Prop) :
    Outcome α → Outcome β → Prop
  | ok {a b t t' j j'} : A a b → R t t' → L.journal j j' → Alike L A R ⟨.ok a, t, j⟩ ⟨.ok b, t', j'⟩
  | error {f f' t t' j j'} : L.fault f f' → L.stuck t t' → L.journal j j' →
      Alike L A R ⟨.error f, t, j⟩ ⟨.error f', t', j'⟩

namespace Outcome.Alike

variable {L : Likeness} {A : α → β → Prop} {R : Table → Table → Prop} {o : Outcome α} {o' : Outcome β}

theorem result (h : o.Alike L A R o') : Dana.Alike L.fault A o.result o'.result := by
  cases h with
  | ok hab => exact .ok hab
  | error hf => exact .error hf

theorem mono {A' : α → β → Prop} (h : o.Alike L A R o') (hA : ∀ a b, A a b → A' a b) : o.Alike L A' R o' := by
  cases h with
  | ok hab ht hj => exact .ok (hA _ _ hab) ht hj
  | error hf ht hj => exact .error hf ht hj

theorem table (h : o.Alike L A R o') (hR : ∀ t t', L.stuck t t' → R t t') : R o.table o'.table := by
  cases h with
  | ok _ ht => exact ht
  | error _ ht => exact hR _ _ ht

theorem journal (h : o.Alike L A R o') : L.journal o.journal o'.journal := by
  cases h with
  | ok _ _ hj => exact hj
  | error _ _ hj => exact hj

end Outcome.Alike

namespace Check

/-- From tables related by `R` the two actions do alike: they give values related by `A`
and leave tables related by `R'`, or both stop. -/
def Parallel (L : Likeness) (R : Table → Table → Prop) (m : Check α) (m' : Check β) (A : α → β → Prop)
    (R' : Table → Table → Prop) : Prop :=
  ∀ ⦃t t' : Table⦄, R t t' → (m.run t).Alike L A R' (m'.run t')

section
variable {L : Likeness} {R R' R'' : Table → Table → Prop} {A : α → β → Prop} {B : γ → δ → Prop}

theorem Parallel.mono {A' : α → β → Prop} {m : Check α} {m' : Check β} (h : m.Parallel L R m' A R')
    (hA : ∀ a b, A a b → A' a b) : m.Parallel L R m' A' R' :=
  fun _ _ ht => (h ht).mono hA

theorem parallel_pure {a : α} {b : β} (h : A a b) : (pure a : Check α).Parallel L R (pure b : Check β) A R :=
  fun _ _ ht => .ok h ht L.journal_nil

theorem parallel_bind {m : Check α} {m' : Check β} {k : α → Check γ} {k' : β → Check δ}
    (hm : m.Parallel L R m' A R') (hk : ∀ a b, A a b → (k a).Parallel L R' (k' b) B R'') :
    (m >>= k).Parallel L R (m' >>= k') B R'' := by
  intro t t' ht
  have hm := hm ht
  generalize h : m.run t = o, h' : m'.run t' = o' at hm
  cases hm with
  | error hf hu hj =>
    rw [run_bind_error h, run_bind_error h']
    exact .error hf hu hj
  | @ok a b u u' j j' hab hu hj =>
    rw [run_bind_ok h, run_bind_ok h']
    have hk := hk a b hab hu
    generalize (k a).run u = o, (k' b).run u' = o' at hk ⊢
    cases hk with
    | ok hcd hv hj' => exact .ok hcd hv (L.journal_append hj hj')
    | error hf hv hj' => exact .error hf hv (L.journal_append hj hj')

theorem parallel_note {e e' : Event} (h : L.journal [e] [e']) :
    (note e).Parallel L R (note e') (fun _ _ => True) R :=
  fun _ _ ht => .ok trivial ht h

theorem parallel_forM {X : α → β → Prop} {m : α → Check Unit} {m' : β → Check Unit}
    (hm : ∀ a b, X a b → (m a).Parallel L R (m' b) (fun _ _ => True) R) {as : List α} {bs : List β}
    (h : List.Forall₂ X as bs) : (as.forM m).Parallel L R (bs.forM m') (fun _ _ => True) R := by
  induction h with
  | nil => exact parallel_pure trivial
  | cons hab _ ih => exact parallel_bind (hm _ _ hab) fun _ _ _ => ih

theorem parallel_change {g g' : Table → Except Fault Table} {r r' : Table → List Event}
    (hg : ∀ t t', R t t' → Dana.Alike L.fault R' (g t) (g' t')) (hs : ∀ t t', R t t' → L.stuck t t')
    (hr : ∀ u u', R' u u' → L.journal (r u) (r' u')) :
    (change g r).Parallel L R (change g' r') (fun _ _ => True) R' := by
  intro t t' ht
  have hg := hg t t' ht
  simp only [run, change]
  generalize g t = x, g' t' = y at hg ⊢
  cases hg with
  | ok hu => exact .ok trivial hu (hr _ _ hu)
  | error hf => exact .error hf (hs _ _ ht) L.journal_nil

theorem parallel_ask {g : Table → Except Fault α} {g' : Table → Except Fault β}
    (hg : ∀ t t', R t t' → Dana.Alike L.fault A (g t) (g' t')) (hs : ∀ t t', R t t' → L.stuck t t') :
    (ask g).Parallel L R (ask g') A R := by
  intro t t' ht
  have hg := hg t t' ht
  simp only [run, ask]
  generalize g t = x, g' t' = y at hg ⊢
  cases hg with
  | ok hab => exact .ok hab ht L.journal_nil
  | error hf => exact .error hf (hs _ _ ht) L.journal_nil

theorem parallel_fail {c c' : Cause} {line line' : Line} (hf : L.fault ⟨c, line⟩ ⟨c', line'⟩)
    (hs : ∀ t t', R t t' → L.stuck t t') : (fail c line : Check α).Parallel L R (fail c' line' : Check β) A R' :=
  fun _ _ ht => .error hf (hs _ _ ht) L.journal_nil

end

end Check

end Dana
