import Dana.Proofs.Clean
import Dana.Proofs.Rewriting

/-!
# The text of a type

Every type is a scalar or a reference inside some number of arrays, and its text is that of
the scalar or reference and then the dimensions, outermost first. A keyword is no prefix of
another and a dimension ends at its bracket, so the text can be read in one way only. Two
things are lost: size 0 is not told from no size, and whether a reference stands inside an
array or outside.
-/

namespace Dana

namespace Ty

/-- Arrays of these sizes round a type, the outermost first. -/
def arrays (base : Ty) (sizes : List (Option UInt32)) : Ty :=
  sizes.foldr (fun size elem => .array elem size) base

/-- Not itself an array. -/
def bare : Ty → Bool
  | .array _ _ => false
  | _ => true

/-- No reference occurs in the element type of an array. -/
def refsOutside : Ty → Bool
  | .scalar _ => true
  | .array elem _ => elem.plain
  | .reference base => base.refsOutside

def shownSize (size : Option UInt32) : Option UInt32 :=
  if size = some 0 then none else size

/-- The type with no size in place of size 0. -/
def shown : Ty → Ty :=
  resize shownSize

/-! ## One dimension -/

def sizeDigits : Option UInt32 → List Char
  | none => []
  | some n => Nat.toDigits 10 n.toNat

theorem dimText_shownSize (size : Option UInt32) : dimText (shownSize size) = dimText size := by
  cases size with
  | none => rfl
  | some n => by_cases hn : n = 0 <;> simp [shownSize, dimText, hn]

theorem toList_dimText (size : Option UInt32) :
    (dimText size).toList = '[' :: (sizeDigits (shownSize size) ++ [']']) := by
  cases size with
  | none => rfl
  | some n => by_cases hn : n = 0 <;> simp [shownSize, dimText, sizeDigits, hn]

theorem bracket_not_mem_sizeDigits (size : Option UInt32) : ']' ∉ sizeDigits size := by
  cases size with
  | none => simp [sizeDigits]
  | some n =>
    intro h
    have hdigit : (']' : Char).isDigit = true := Nat.isDigit_of_mem_toDigits (by decide) (by decide) h
    cases hdigit

theorem sizeDigits_inj {a b : Option UInt32} (h : sizeDigits a = sizeDigits b) : a = b := by
  cases a with
  | none =>
    cases b with
    | none => rfl
    | some n => exact absurd h.symm Nat.toDigits_ne_nil
  | some m =>
    cases b with
    | none => exact absurd h Nat.toDigits_ne_nil
    | some n =>
      have hnat : m.toNat = n.toNat := by
        rw [← Nat.ofDigitChars_ten_toDigits (n := m.toNat), ← Nat.ofDigitChars_ten_toDigits (n := n.toNat)]
        exact congrArg (Nat.ofDigitChars 10 · 0) h
      rw [UInt32.toNat_inj.mp hnat]

/-- What stands before the first `c` ends there. -/
theorem append_cons_inj {c : Char} : ∀ {l m x y : List Char}, c ∉ l → c ∉ m →
    l ++ c :: x = m ++ c :: y → l = m ∧ x = y
  | [], [], _, _, _, _, h => ⟨rfl, (List.cons.inj h).2⟩
  | [], d :: m, _, _, _, hm, h => absurd (List.cons.inj h).1 fun hd => hm (by simp [hd])
  | d :: l, [], _, _, hl, _, h => absurd (List.cons.inj h).1 fun hd => hl (by simp [hd])
  | d :: l, d' :: m, _, _, hl, hm, h => by
    obtain ⟨rfl, htail⟩ := List.cons.inj h
    rw [List.mem_cons, not_or] at hl hm
    obtain ⟨rfl, hxy⟩ := append_cons_inj hl.2 hm.2 htail
    exact ⟨rfl, hxy⟩

theorem dimText_append_inj {a b : Option UInt32} {x y : List Char}
    (h : (dimText a).toList ++ x = (dimText b).toList ++ y) : shownSize a = shownSize b ∧ x = y := by
  simp only [toList_dimText, List.cons_append, List.append_assoc, List.nil_append, List.cons.injEq, true_and] at h
  obtain ⟨hdigits, hxy⟩ := append_cons_inj (bracket_not_mem_sizeDigits _) (bracket_not_mem_sizeDigits _) h
  exact ⟨sizeDigits_inj hdigits, hxy⟩

/-! ## All dimensions -/

def dimsText (sizes : List (Option UInt32)) : String :=
  String.join (sizes.map dimText)

theorem toList_dimsText_cons (size : Option UInt32) (sizes : List (Option UInt32)) :
    (dimsText (size :: sizes)).toList = (dimText size).toList ++ (dimsText sizes).toList := by
  simp [dimsText]

theorem dimsText_inj : ∀ {sizes sizes' : List (Option UInt32)},
    (dimsText sizes).toList = (dimsText sizes').toList → sizes.map shownSize = sizes'.map shownSize
  | [], [], _ => rfl
  | [], size :: sizes, h => by
    rw [toList_dimsText_cons, toList_dimText] at h
    simp [dimsText] at h
  | size :: sizes, [], h => by
    rw [toList_dimsText_cons, toList_dimText] at h
    simp [dimsText] at h
  | size :: sizes, size' :: sizes', h => by
    rw [toList_dimsText_cons, toList_dimsText_cons] at h
    obtain ⟨hsize, hsizes⟩ := dimText_append_inj h
    rw [List.map_cons, List.map_cons, hsize, dimsText_inj hsizes]

theorem textWith_arrays (base : Ty) (dims : String) (sizes : List (Option UInt32)) :
    (base.arrays sizes).textWith dims = base.textWith (dims ++ dimsText sizes) := by
  induction sizes generalizing dims with
  | nil => simp [arrays, dimsText]
  | cons size sizes ih =>
    have hcons : (base.arrays (size :: sizes)).textWith dims =
        (base.arrays sizes).textWith (dims ++ dimText size) := rfl
    rw [hcons, ih, dimsText, dimsText, List.map_cons, String.join_cons, String.append_assoc]

theorem textWith_of_bare {base : Ty} (h : base.bare = true) (dims : String) :
    base.textWith dims = base.text ++ dims := by
  cases base with
  | scalar s => simp [text, textWith]
  | array elem size => cases h
  | reference base => simp [text, textWith]

theorem text_arrays {base : Ty} (h : base.bare = true) (sizes : List (Option UInt32)) :
    (base.arrays sizes).text = base.text ++ dimsText sizes := by
  rw [text, textWith_arrays, String.empty_append, textWith_of_bare h]

theorem exists_arrays (t : Ty) : ∃ (base : Ty) (sizes : List (Option UInt32)),
    base.bare = true ∧ t = base.arrays sizes := by
  induction t with
  | scalar s => exact ⟨.scalar s, [], rfl, rfl⟩
  | array elem size ih =>
    obtain ⟨base, sizes, hbase, rfl⟩ := ih
    exact ⟨base, size :: sizes, hbase, rfl⟩
  | reference base => exact ⟨.reference base, [], rfl, rfl⟩

/-! ## Reading the text -/

theorem plain_arrays (base : Ty) (sizes : List (Option UInt32)) : (base.arrays sizes).plain = base.plain := by
  induction sizes with
  | nil => rfl
  | cons size sizes ih => exact ih

theorem shown_arrays (base : Ty) (sizes : List (Option UInt32)) :
    (base.arrays sizes).shown = base.shown.arrays (sizes.map shownSize) := by
  induction sizes with
  | nil => rfl
  | cons size sizes ih =>
    show Ty.array (base.arrays sizes).shown (shownSize size) = _
    rw [ih]
    rfl

theorem scalar_arrays_of_plain {t : Ty} (h : t.plain = true) : ∃ s sizes, t = (Ty.scalar s).arrays sizes := by
  obtain ⟨base, sizes, hbase, rfl⟩ := exists_arrays t
  rw [plain_arrays] at h
  cases base with
  | scalar s => exact ⟨s, sizes, rfl⟩
  | array elem size => cases hbase
  | reference base => cases h

theorem scalar_text_append_inj {s s' : Scalar} {x y : List Char}
    (h : s.text.toList ++ x = s'.text.toList ++ y) : s = s' ∧ x = y := by
  -- no keyword is a prefix of another, so unequal ones clash at some letter
  cases s <;> cases s' <;> simp [Scalar.text] at h ⊢ <;> exact h

theorem toList_text_scalar_arrays (s : Scalar) (sizes : List (Option UInt32)) :
    ((Ty.scalar s).arrays sizes).text.toList = s.text.toList ++ (dimsText sizes).toList := by
  rw [text_arrays rfl, String.toList_append]
  simp [text, textWith]

theorem text_reference (base : Ty) : (Ty.reference base).text = "ref " ++ base.text := by
  simp [text, textWith]

theorem text_ne_reference {t : Ty} (ht : t.plain = true) (base : Ty) : t.text ≠ (Ty.reference base).text := by
  obtain ⟨s, sizes, rfl⟩ := scalar_arrays_of_plain ht
  intro h
  have hlist := congrArg String.toList h
  rw [toList_text_scalar_arrays, text_reference, String.toList_append] at hlist
  -- no keyword starts with an `r`
  cases s <;> simp [Scalar.text] at hlist

theorem shown_eq_of_plain {t u : Ty} (ht : t.plain = true) (hu : u.plain = true) (h : t.text = u.text) :
    t.shown = u.shown := by
  obtain ⟨s, sizes, rfl⟩ := scalar_arrays_of_plain ht
  obtain ⟨s', sizes', rfl⟩ := scalar_arrays_of_plain hu
  have hlist := congrArg String.toList h
  rw [toList_text_scalar_arrays, toList_text_scalar_arrays] at hlist
  obtain ⟨rfl, hdims⟩ := scalar_text_append_inj hlist
  rw [shown_arrays, shown_arrays, dimsText_inj hdims]

theorem shown_eq_of_text_eq {t u : Ty} (ht : t.refsOutside = true) (hu : u.refsOutside = true)
    (h : t.text = u.text) : t.shown = u.shown := by
  induction t generalizing u with
  | scalar s =>
    cases u with
    | scalar s' => exact shown_eq_of_plain rfl rfl h
    | array elem size => exact shown_eq_of_plain rfl hu h
    | reference base => exact absurd h (text_ne_reference rfl base)
  | array elem size _ =>
    cases u with
    | scalar s => exact shown_eq_of_plain ht rfl h
    | array elem' size' => exact shown_eq_of_plain ht hu h
    | reference base => exact absurd h (text_ne_reference (t := .array elem size) ht base)
  | reference base ih =>
    cases u with
    | scalar s => exact absurd h.symm (text_ne_reference rfl base)
    | array elem size => exact absurd h.symm (text_ne_reference (t := .array elem size) hu base)
    | reference base' =>
      rw [text_reference, text_reference, String.append_right_inj] at h
      exact congrArg reference (ih ht hu h)

theorem textWith_shown (t : Ty) (dims : String) : t.shown.textWith dims = t.textWith dims := by
  induction t generalizing dims with
  | scalar s => rfl
  | array elem size ih =>
    show elem.shown.textWith (dims ++ dimText (shownSize size)) = _
    rw [ih, dimText_shownSize]
    rfl
  | reference base ih =>
    show "ref " ++ base.shown.textWith "" ++ dims = _
    rw [ih]
    rfl

theorem text_shown (t : Ty) : t.shown.text = t.text :=
  textWith_shown t ""

end Ty

/-! ## Main result -/

/-- **The text of a type is unambiguous.** Where no reference stands inside an array, two types
have one text exactly if they differ at most in how they leave a size open. The dimensions of
any type stand after the rest of it, each once, the outermost first. -/
theorem typeText_unambiguous :
    (∀ t u : Ty, t.refsOutside = true → u.refsOutside = true → (t.text = u.text ↔ t.shown = u.shown)) ∧
    ∀ t : Ty, ∃ (base : Ty) (sizes : List (Option UInt32)), base.bare = true ∧ t = base.arrays sizes ∧
      t.text = base.text ++ String.join (sizes.map Ty.dimText) := by
  constructor
  · intro t u ht hu
    refine ⟨Ty.shown_eq_of_text_eq ht hu, fun h => ?_⟩
    rw [← t.text_shown, h, u.text_shown]
  · intro t
    obtain ⟨base, sizes, hbase, rfl⟩ := t.exists_arrays
    exact ⟨base, sizes, hbase, rfl, Ty.text_arrays hbase sizes⟩

/-- Sizes that run together to the same digits are still told apart. -/
theorem typeText_unambiguous_digits :
    let t := Ty.reference (.array (.array .int (some 23)) (some 1))
    let u := Ty.reference (.array (.array .int (some 3)) (some 12))
    let v := Ty.reference (.array (.array .int (some 23)) (some 0))
    let w := Ty.reference (.array (.array .int (some 23)) none)
    (t.refsOutside = true ∧ u.refsOutside = true ∧ t.text ≠ u.text) ∧
    (v.refsOutside = true ∧ w.refsOutside = true ∧ v ≠ w ∧ v.text = w.text) := by
  intro t u v w
  have hneq : t.shown ≠ u.shown := by decide
  have heq : v.shown = w.shown := by decide
  refine ⟨⟨rfl, rfl, fun h => hneq ?_⟩, rfl, rfl, by decide, ?_⟩
  · exact (typeText_unambiguous.1 t u rfl rfl).mp h
  · exact (typeText_unambiguous.1 v w rfl rfl).mpr heq

/-- A reference inside an array reads as one outside. -/
example : (Ty.array (.reference .int) (some 3)).text = (Ty.reference (.array .int (some 3))).text := by decide

end Dana
