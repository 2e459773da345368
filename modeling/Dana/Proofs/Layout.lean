import Dana.Json.Parser
import Dana.Json.Printer

/-!
# Text that is laid out is read back

The text of a value is read to the same value again, whatever the strings in it and
however deep it goes. A value is read from the front of a longer text, so this is shown
with any text behind that can stand there in a layout (`Json.value?_layout`).
-/

namespace Dana

namespace Json

/-! ## Blanks -/

theorem skipBlanks_cons {c : Char} {cs : List Char} (h : isBlank c = false) : skipBlanks (c :: cs) = c :: cs := by
  simp [skipBlanks, h]

@[simp] theorem skipBlanks_space (cs : List Char) : skipBlanks (' ' :: cs) = skipBlanks cs := rfl

@[simp] theorem skipBlanks_newline (n : Nat) (cs : List Char) : skipBlanks (newline n ++ cs) = skipBlanks cs := by
  have hspaces : ∀ n, skipBlanks (List.replicate n ' ' ++ cs) = skipBlanks cs := by
    intro n
    induction n with
    | zero => rfl
    | succ n ih => rw [List.replicate_succ, List.cons_append, skipBlanks_space, ih]
  exact hspaces (2 * n)

theorem value?_congr {fuel : Nat} {cs ds : List Char} (h : skipBlanks cs = skipBlanks ds) :
    value? fuel cs = value? fuel ds := by
  cases fuel with
  | zero => rfl
  | succ fuel => rw [value?, value?, h]

/-! ## Strings -/

theorem codes?_unescape {c : Char} {n : Nat} (hu : c ≠ 'u') (h : unescape? c = some n) (cs : List Char) :
    codes? ('\\' :: c :: cs) = (codes? cs).map fun p => (n :: p.1, p.2) := by
  rw [codes?]
  · rw [h]
    cases codes? cs <;> rfl
  · intro a b c' d rest hc
    exact absurd hc hu

theorem codes?_literal {c : Char} (hq : c ≠ '"') (hb : c ≠ '\\') (hc : ¬ c.toNat < 32) (cs : List Char) :
    codes? (c :: cs) = (codes? cs).map fun p => (c.toNat :: p.1, p.2) := by
  rw [codes?]
  · rw [if_neg hc]
    cases codes? cs <;> rfl
  all_goals simp [hq, hb]

theorem hex4?_control : ∀ n < 32, hex4? '0' '0' (hexDigit (n / 16)) (hexDigit (n % 16)) = some n := by
  decide

/-- However a character is written, it is read as its code. -/
theorem codes?_escape (c : Char) (cs : List Char) :
    codes? (escape c ++ cs) = (codes? cs).map fun p => (c.toNat :: p.1, p.2) := by
  unfold escape
  by_cases hq : c = '"'
  · subst hq
    exact codes?_unescape (by decide) rfl cs
  by_cases hb : c = '\\'
  · subst hb
    exact codes?_unescape (by decide) rfl cs
  by_cases h8 : c = '\x08'
  · subst h8
    exact codes?_unescape (by decide) rfl cs
  by_cases h12 : c = '\x0c'
  · subst h12
    exact codes?_unescape (by decide) rfl cs
  by_cases h10 : c = '\n'
  · subst h10
    exact codes?_unescape (by decide) rfl cs
  by_cases h13 : c = '\r'
  · subst h13
    exact codes?_unescape (by decide) rfl cs
  by_cases h9 : c = '\t'
  · subst h9
    exact codes?_unescape (by decide) rfl cs
  simp only [hq, hb, h8, h12, h10, h13, h9, if_false]
  by_cases hc : c.toNat < 32
  · simp only [hc, if_true, List.cons_append, List.nil_append]
    rw [codes?, hex4?_control _ hc]
    cases codes? cs <;> rfl
  · simp only [hc, if_false]
    exact codes?_literal hq hb hc cs

theorem codes?_quote (cs rest : List Char) :
    codes? (cs.flatMap escape ++ '"' :: rest) = some (cs.map Char.toNat, rest) := by
  induction cs with
  | nil => rw [List.flatMap_nil, List.nil_append, codes?]; rfl
  | cons c cs ih =>
    rw [List.flatMap_cons, List.append_assoc, codes?_escape, ih]
    rfl

/-- No character is half of a surrogate pair. -/
theorem not_surrogate (c : Char) : isHighSurrogate c.toNat = false ∧ isLowSurrogate c.toNat = false := by
  have hvalid : c.toNat < 0xd800 ∨ 0xdfff < c.toNat ∧ c.toNat < 0x110000 := c.valid
  simp only [isHighSurrogate, isLowSurrogate, Bool.and_eq_false_iff, decide_eq_false_iff_not]
  omega

theorem joinCodes?_map : ∀ cs : List Char, joinCodes? (cs.map Char.toNat) = some cs
  | [] => rfl
  | [c] => by
    obtain ⟨hhigh, hlow⟩ := not_surrogate c
    simp [joinCodes?, hhigh, hlow]
  | c :: d :: cs => by
    obtain ⟨hhigh, hlow⟩ := not_surrogate c
    have ih := joinCodes?_map (d :: cs)
    simp only [List.map_cons] at ih ⊢
    simp [joinCodes?, hhigh, hlow, ih]

theorem string?_quote (s : String) (rest : List Char) :
    string? (s.toList.flatMap escape ++ '"' :: rest) = some (some s, rest) := by
  rw [string?, codes?_quote]
  simp [joinCodes?_map]

/-! ## Numbers -/

/-- A comma, a new line or the end: what stands behind a value in a layout. -/
def Follows : List Char → Prop
  | [] => True
  | c :: _ => c = ',' ∨ c = '\n'

theorem head_toDigits (n : Nat) : ∃ c cs, Nat.toDigits 10 n = c :: cs ∧ c.isDigit = true := by
  cases h : Nat.toDigits 10 n with
  | nil => exact absurd h Nat.toDigits_ne_nil
  | cons c cs => exact ⟨c, cs, rfl, Nat.isDigit_of_mem_toDigits (by decide) (by decide) (h ▸ List.mem_cons_self)⟩

theorem head_toDigits_ne_zero {n : Nat} (hn : 0 < n) : (Nat.toDigits 10 n).head? ≠ some '0' := by
  induction n using Nat.strongRecOn with
  | ind n ih =>
    rw [Nat.toDigits_eq_if (by decide)]
    by_cases h : n < 10
    · have hdigit : ∀ m < 10, 0 < m → m.digitChar ≠ '0' := by decide
      rw [if_pos h]
      simpa using hdigit n h hn
    · have ih := ih (n / 10) (by omega) (by omega)
      obtain ⟨c, cs, hcs, -⟩ := head_toDigits (n / 10)
      rw [if_neg h, hcs]
      rw [hcs] at ih
      exact ih

section
variable {rest : List Char} (hrest : Follows rest)
include hrest

theorem Follows.digits?_digits (n : Nat) : digits? (digits n ++ rest) = some (digits n, rest) := by
  have hdigit : ∀ c ∈ digits n, c.isDigit = true := fun c hc =>
    Nat.isDigit_of_mem_toDigits (by decide) (by decide) hc
  have htake : rest.takeWhile Char.isDigit = [] ∧ rest.dropWhile Char.isDigit = rest := by
    cases rest with
    | nil => exact ⟨rfl, rfl⟩
    | cons c cs => rcases hrest with rfl | rfl <;> exact ⟨rfl, rfl⟩
  unfold digits?
  rw [List.takeWhile_append_of_pos hdigit, List.dropWhile_append_of_pos hdigit, htake.1, htake.2, List.append_nil]
  cases h : digits n with
  | nil => exact absurd h Nat.toDigits_ne_nil
  | cons c cs => rfl

theorem Follows.integer?_digits (n : Nat) : integer? (digits n ++ rest) = some (digits n, rest) := by
  by_cases hn : n = 0
  · subst hn
    rfl
  · have hhead := head_toDigits_ne_zero (Nat.pos_of_ne_zero hn)
    rw [← digits?_digits hrest n]
    cases h : digits n with
    | nil => exact absurd h Nat.toDigits_ne_nil
    | cons c cs =>
      rw [List.cons_append, integer?]
      intro cs' hc
      cases hc
      rw [show Nat.toDigits 10 n = '0' :: cs from h] at hhead
      exact hhead rfl

theorem Follows.no_fraction : fraction rest = ([], rest) ∧ exponent rest = ([], rest) := by
  cases rest with
  | nil => exact ⟨rfl, rfl⟩
  | cons c cs => rcases hrest with rfl | rfl <;> exact ⟨rfl, rfl⟩

theorem Follows.unsigned?_digits {negative : Bool} {n : Nat} (hn : negative = true → n ≠ 0) :
    unsigned? negative (digits n ++ rest) = some (.int (if negative then -(n : Int) else n), rest) := by
  have hvalue : Nat.ofDigitChars 10 (digits n) 0 = n := Nat.ofDigitChars_ten_toDigits
  simp only [unsigned?, hrest.integer?_digits, hrest.no_fraction.1, hrest.no_fraction.2, hvalue, bind,
    Option.bind]
  cases negative with
  | false => rfl
  | true => simp [hn rfl]

theorem Follows.number?_intChars (n : Int) : number? (intChars n ++ rest) = some (.int n, rest) := by
  cases n with
  | ofNat n =>
    obtain ⟨c, cs, h, hc⟩ := head_toDigits n
    have hunsigned : unsigned? false (digits n ++ rest) = some (.int n, rest) :=
      hrest.unsigned?_digits (by simp)
    simp only [intChars, digits, h, List.cons_append] at hunsigned ⊢
    rw [number?, hunsigned]
    · rfl
    · intro cs' hneg
      cases hneg
      revert hc
      decide
  | negSucc n =>
    rw [intChars, List.cons_append, number?, hrest.unsigned?_digits (by simp)]
    rfl

end

/-! ## Values -/

/-- A value that its text settles. Left out are numbers that are no integers, which are
kept as they were written, and strings that were never well formed. -/
inductive Definite : Json → Prop
  | null : Definite .null
  | bool {b} : Definite (.bool b)
  | int {n} : Definite (.int n)
  | str {s} : Definite (.str s)
  | arr {items} : (∀ j ∈ items, Definite j) → Definite (.arr items)
  | obj {members} : (∀ m ∈ members, Definite m.2) → Definite (.obj members)

theorem head_intChars (n : Int) : ∃ c cs, intChars n = c :: cs ∧ (c = '-' ∨ c.isDigit = true) := by
  cases n with
  | ofNat n =>
    obtain ⟨c, cs, h, hc⟩ := head_toDigits n
    exact ⟨c, cs, h, .inr hc⟩
  | negSucc n => exact ⟨_, _, rfl, .inl rfl⟩

theorem ne_of_number {c d : Char} (h : c = '-' ∨ c.isDigit = true) (hd : d ≠ '-') (hdigit : d.isDigit = false) :
    c ≠ d := by
  intro hcd
  subst hcd
  rcases h with h | h
  · exact hd h
  · rw [h] at hdigit
    cases hdigit

theorem not_isBlank_of_number {c : Char} (h : c = '-' ∨ c.isDigit = true) : isBlank c = false := by
  have hspace : c ≠ ' ' := ne_of_number h (by decide) rfl
  have htab : c ≠ '\t' := ne_of_number h (by decide) rfl
  have hnewline : c ≠ '\n' := ne_of_number h (by decide) rfl
  have hreturn : c ≠ '\r' := ne_of_number h (by decide) rfl
  simp [isBlank, hspace, htab, hnewline, hreturn]

theorem head_layout {j : Json} (h : j.Definite) (level : Nat) :
    ∃ c cs, layout level j = c :: cs ∧ isBlank c = false ∧ c ≠ ']' := by
  cases h with
  | null => exact ⟨_, _, rfl, rfl, by decide⟩
  | @bool b => cases b <;> exact ⟨_, _, rfl, rfl, by decide⟩
  | @int n =>
    obtain ⟨c, cs, hcs, hc⟩ := head_intChars n
    exact ⟨c, cs, hcs, not_isBlank_of_number hc, ne_of_number hc (by decide) rfl⟩
  | str => exact ⟨_, _, rfl, rfl, by decide⟩
  | @arr items => cases items <;> exact ⟨_, _, rfl, rfl, by decide⟩
  | @obj members => cases members <;> exact ⟨_, _, rfl, rfl, by decide⟩

theorem value?_null (fuel : Nat) (cs : List Char) : value? (fuel + 1) ("null".toList ++ cs) = some (.null, cs) := by
  have h : skipBlanks ("null".toList ++ cs) = 'n' :: 'u' :: 'l' :: 'l' :: cs := rfl
  simp only [value?, h]

theorem value?_true (fuel : Nat) (cs : List Char) :
    value? (fuel + 1) ("true".toList ++ cs) = some (.bool true, cs) := by
  have h : skipBlanks ("true".toList ++ cs) = 't' :: 'r' :: 'u' :: 'e' :: cs := rfl
  simp only [value?, h]

theorem value?_false (fuel : Nat) (cs : List Char) :
    value? (fuel + 1) ("false".toList ++ cs) = some (.bool false, cs) := by
  have h : skipBlanks ("false".toList ++ cs) = 'f' :: 'a' :: 'l' :: 's' :: 'e' :: cs := rfl
  simp only [value?, h]

theorem value?_number {c : Char} {cs : List Char} (h : c = '-' ∨ c.isDigit = true) (fuel : Nat) :
    value? (fuel + 1) (c :: cs) = number? (c :: cs) := by
  rw [value?, skipBlanks_cons (not_isBlank_of_number h)]
  have hn : c ≠ 'n' := ne_of_number h (by decide) rfl
  have ht : c ≠ 't' := ne_of_number h (by decide) rfl
  have hf : c ≠ 'f' := ne_of_number h (by decide) rfl
  have hquote : c ≠ '"' := ne_of_number h (by decide) rfl
  have harr : c ≠ '[' := ne_of_number h (by decide) rfl
  have hobj : c ≠ '\x7b' := ne_of_number h (by decide) rfl
  simp [hn, ht, hf, hquote, harr, hobj]

theorem value?_string (fuel : Nat) (cs : List Char) :
    value? (fuel + 1) ('"' :: cs) = (string? cs).map fun p => (p.1.elim .garbled .str, p.2) := by
  rw [value?, skipBlanks_cons rfl]
  simp only
  cases string? cs <;> rfl

theorem value?_noItems (fuel : Nat) (cs : List Char) :
    value? (fuel + 1) ('[' :: ']' :: cs) = some (.arr [], cs) := by
  have h : skipBlanks (']' :: cs) = ']' :: cs := rfl
  rw [value?, skipBlanks_cons rfl]
  simp only [h]

theorem value?_noMembers (fuel : Nat) (cs : List Char) :
    value? (fuel + 1) ('\x7b' :: '\x7d' :: cs) = some (.obj [], cs) := by
  have h : skipBlanks ('\x7d' :: cs) = '\x7d' :: cs := rfl
  rw [value?, skipBlanks_cons rfl]
  simp only [h]

theorem value?_items {c : Char} {cs ds : List Char} (h : skipBlanks cs = c :: ds) (hc : c ≠ ']') (fuel : Nat) :
    value? (fuel + 1) ('[' :: cs) = (items? fuel cs).map fun p => (.arr p.1, p.2) := by
  rw [value?, skipBlanks_cons rfl]
  simp only [h]
  split
  · rename_i hcs
    cases hcs
    exact absurd rfl hc
  · cases items? fuel cs <;> rfl

theorem value?_members {cs ds : List Char} (h : skipBlanks cs = '"' :: ds) (fuel : Nat) :
    value? (fuel + 1) ('\x7b' :: cs) = (members? fuel cs).map fun p => (ofMembers p.1, p.2) := by
  rw [value?, skipBlanks_cons rfl]
  simp only [h]
  cases members? fuel cs <;> rfl

section
variable {fuel : Nat} {cs ds es : List Char} {j : Json}

theorem items?_last (hj : value? fuel cs = some (j, ds)) (hds : skipBlanks ds = ']' :: es) :
    items? (fuel + 1) cs = some ([j], es) := by
  rw [items?, hj]
  simp only [bind, Option.bind, hds]
  rfl

theorem items?_next (hj : value? fuel cs = some (j, ds)) (hds : skipBlanks ds = ',' :: es) :
    items? (fuel + 1) cs = (items? fuel es).map fun p => (j :: p.1, p.2) := by
  rw [items?, hj]
  simp only [bind, Option.bind, hds]
  cases items? fuel es <;> rfl

variable {name : String} {ts : List Char}

theorem members?_last (hcs : skipBlanks cs = quote name ++ ':' :: ts) (hj : value? fuel ts = some (j, ds))
    (hds : skipBlanks ds = '\x7d' :: es) : members? (fuel + 1) cs = some ([(some name, j)], es) := by
  have hname := string?_quote name (':' :: ts)
  have hcolon : skipBlanks (':' :: ts) = ':' :: ts := rfl
  rw [members?, hcs]
  simp only [quote, List.cons_append, List.append_assoc, List.nil_append, hname, bind, Option.bind, hcolon, hj, hds]
  rfl

theorem members?_next (hcs : skipBlanks cs = quote name ++ ':' :: ts) (hj : value? fuel ts = some (j, ds))
    (hds : skipBlanks ds = ',' :: es) :
    members? (fuel + 1) cs = (members? fuel es).map fun p => ((some name, j) :: p.1, p.2) := by
  have hname := string?_quote name (':' :: ts)
  have hcolon : skipBlanks (':' :: ts) = ':' :: ts := rfl
  rw [members?, hcs]
  simp only [quote, List.cons_append, List.append_assoc, List.nil_append, hname, bind, Option.bind, hcolon, hj, hds]
  cases members? fuel es <;> rfl

end

/-- With fuel for its own text, the value is read from the front of any text that it can
stand before. -/
def ReadsBack (level : Nat) (j : Json) : Prop :=
  ∀ (fuel : Nat) (rest : List Char), (layout level j).length ≤ fuel → Follows rest →
    value? fuel (layout level j ++ rest) = some (j, rest)

theorem follows_newline (n : Nat) (cs : List Char) : Follows (newline n ++ cs) := .inr rfl

theorem items?_layout {level outer : Nat} {rest : List Char} : ∀ {js : List Json} {j : Json} {fuel : Nat},
    (∀ k ∈ j :: js, ReadsBack level k) →
    (layout level j).length + (layoutItems level js).length < fuel →
      items? fuel (newline level ++ (layout level j ++ (layoutItems level js ++ (newline outer ++ ']' :: rest)))) =
        some (j :: js, rest)
  | _, _, 0, _, hfuel => absurd hfuel (Nat.not_lt_zero _)
  | [], j, fuel + 1, h, hfuel => by
    apply items?_last
    · rw [value?_congr (skipBlanks_newline _ _)]
      exact h j List.mem_cons_self fuel _ (by omega) (follows_newline outer _)
    · rw [layoutItems, List.nil_append, skipBlanks_newline]
      rfl
  | k :: ks, j, fuel + 1, h, hfuel => by
    simp only [layoutItems, List.length_cons, List.length_append] at hfuel
    have hj : value? fuel (layout level j ++ (layoutItems level (k :: ks) ++ (newline outer ++ ']' :: rest))) =
        some (j, layoutItems level (k :: ks) ++ (newline outer ++ ']' :: rest)) :=
      h j List.mem_cons_self fuel _ (by omega) (.inl rfl)
    have hks : items? fuel (newline level ++ (layout level k ++ (layoutItems level ks ++
        (newline outer ++ ']' :: rest)))) = some (k :: ks, rest) :=
      items?_layout (fun i hi => h i (List.mem_cons_of_mem _ hi)) (by omega)
    rw [← value?_congr (skipBlanks_newline level _)] at hj
    rw [items?_next hj, hks]
    · rfl
    · simp only [layoutItems, List.cons_append, List.append_assoc]
      rfl

theorem members?_layout {level outer : Nat} {rest : List Char} :
    ∀ {ms : List (String × Json)} {name : String} {j : Json} {fuel : Nat},
    (∀ m ∈ (name, j) :: ms, ReadsBack level m.2) →
    (layout level j).length + (layoutMembers level ms).length < fuel →
      members? fuel (newline level ++ (quote name ++ ':' :: ' ' :: (layout level j ++ (layoutMembers level ms ++
        (newline outer ++ '\x7d' :: rest))))) = some (((name, j) :: ms).map fun m => (some m.1, m.2), rest)
  | _, _, _, 0, _, hfuel => absurd hfuel (Nat.not_lt_zero _)
  | [], name, j, fuel + 1, h, hfuel => by
    have hself : ReadsBack level j := h (name, j) List.mem_cons_self
    apply members?_last
    · rw [skipBlanks_newline]
      rfl
    · rw [value?_congr (skipBlanks_space _)]
      exact hself fuel _ (by omega) (follows_newline outer _)
    · rw [layoutMembers, List.nil_append, skipBlanks_newline]
      rfl
  | (key, k) :: ms, name, j, fuel + 1, h, hfuel => by
    have hself : ReadsBack level j := h (name, j) List.mem_cons_self
    simp only [layoutMembers, List.length_cons, List.length_append] at hfuel
    have hj : value? fuel (layout level j ++ (layoutMembers level ((key, k) :: ms) ++
        (newline outer ++ '\x7d' :: rest))) =
          some (j, layoutMembers level ((key, k) :: ms) ++ (newline outer ++ '\x7d' :: rest)) :=
      hself fuel _ (by omega) (.inl rfl)
    have hms : members? fuel (newline level ++ (quote key ++ ':' :: ' ' :: (layout level k ++
        (layoutMembers level ms ++ (newline outer ++ '\x7d' :: rest))))) =
          some (((key, k) :: ms).map fun m => (some m.1, m.2), rest) :=
      members?_layout (fun m hm => h m (List.mem_cons_of_mem _ hm)) (by omega)
    rw [← value?_congr (skipBlanks_space _)] at hj
    rw [members?_next _ hj, hms]
    · rfl
    · simp only [layoutMembers, List.cons_append, List.append_assoc, List.nil_append]
      rfl
    · rw [skipBlanks_newline]
      rfl

theorem ofMembers_map (ms : List (String × Json)) : ofMembers (ms.map fun m => (some m.1, m.2)) = .obj ms := by
  have hall : ∀ read : Option String × Json → Option (String × Json),
      (∀ m : String × Json, read (some m.1, m.2) = some m) →
        (ms.map fun m => (some m.1, m.2)).mapM read = some ms := by
    intro read hread
    induction ms with
    | nil => rfl
    | cons m ms ih =>
      rw [List.map_cons, List.mapM_cons, hread, ih]
      rfl
  rw [ofMembers, hall _ fun _ => rfl]

-- The forms of `layout` that hold something, as they are needed below.

theorem layout_str (level : Nat) (s : String) : layout level (.str s) = quote s := rfl

theorem layout_arr (level : Nat) (j : Json) (js : List Json) :
    layout level (.arr (j :: js)) =
      '[' :: (newline (level + 1) ++ layout (level + 1) j ++ layoutItems (level + 1) js ++ newline level ++ [']']) :=
  rfl

theorem layout_obj (level : Nat) (name : String) (j : Json) (ms : List (String × Json)) :
    layout level (.obj ((name, j) :: ms)) =
      '\x7b' :: (newline (level + 1) ++ quote name ++ [':', ' '] ++ layout (level + 1) j
        ++ layoutMembers (level + 1) ms ++ newline level ++ ['\x7d']) :=
  rfl

/-- There always is a unit of fuel to spend, as no text of a value is empty. -/
theorem readsBack_of_succ {level : Nat} {j : Json} (hj : j.Definite)
    (h : ∀ fuel rest, (layout level j).length ≤ fuel + 1 → Follows rest →
      value? (fuel + 1) (layout level j ++ rest) = some (j, rest)) : ReadsBack level j := by
  intro fuel rest hfuel hrest
  cases fuel with
  | zero =>
    obtain ⟨c, cs, hcs, -⟩ := head_layout hj level
    rw [hcs, List.length_cons] at hfuel
    omega
  | succ fuel => exact h fuel rest hfuel hrest

theorem value?_layout {j : Json} (h : j.Definite) (level : Nat) : ReadsBack level j := by
  induction h generalizing level with
  | null => exact readsBack_of_succ .null fun fuel rest _ _ => value?_null fuel rest
  | @bool b =>
    refine readsBack_of_succ .bool fun fuel rest _ _ => ?_
    cases b with
    | false => exact value?_false fuel rest
    | true => exact value?_true fuel rest
  | @int n =>
    refine readsBack_of_succ .int fun fuel rest _ hrest => ?_
    obtain ⟨c, cs, hcs, hc⟩ := head_intChars n
    have hlayout : layout level (.int n) = c :: cs := hcs
    have hn : number? (c :: cs ++ rest) = some (.int n, rest) := hcs ▸ hrest.number?_intChars n
    rw [hlayout]
    exact (value?_number hc fuel).trans hn
  | @str s =>
    refine readsBack_of_succ .str fun fuel rest _ _ => ?_
    simp only [layout_str, quote, List.cons_append, List.append_assoc, List.nil_append]
    rw [value?_string, string?_quote]
    rfl
  | @arr items hitems ih =>
    refine readsBack_of_succ (.arr hitems) fun fuel rest hfuel _ => ?_
    cases items with
    | nil => exact value?_noItems fuel rest
    | cons j js =>
      simp only [layout_arr, List.length_cons, List.length_append, List.cons_append, List.append_assoc,
        List.nil_append] at hfuel ⊢
      obtain ⟨c, cs, hcs, hblank, hc⟩ := head_layout (hitems j List.mem_cons_self) (level + 1)
      have hhead : skipBlanks (newline (level + 1) ++ (layout (level + 1) j ++ (layoutItems (level + 1) js ++
          (newline level ++ ']' :: rest)))) = c :: (cs ++ (layoutItems (level + 1) js ++
            (newline level ++ ']' :: rest))) := by
        rw [skipBlanks_newline, hcs, List.cons_append, skipBlanks_cons hblank]
      rw [value?_items hhead hc, items?_layout (fun k hk => ih k hk (level + 1)) (by omega)]
      rfl
  | @obj members hmembers ih =>
    refine readsBack_of_succ (.obj hmembers) fun fuel rest hfuel _ => ?_
    cases members with
    | nil => exact value?_noMembers fuel rest
    | cons m ms =>
      obtain ⟨name, j⟩ := m
      simp only [layout_obj, List.length_cons, List.length_append, List.cons_append, List.append_assoc,
        List.nil_append] at hfuel ⊢
      rw [value?_members, members?_layout (fun m hm => ih m hm (level + 1)) (by omega)]
      · rw [Option.map_some, ofMembers_map]
      · rw [skipBlanks_newline]
        rfl

/-- A line break may stand behind the text of a value, or nothing. -/
theorem parse?_render {j : Json} (h : j.Definite) {blanks : String} (hblanks : blanks = "" ∨ blanks = "\n") :
    parse? (j.render ++ blanks) = some j := by
  have hlist : (j.render ++ blanks).toList = layout 0 j ++ blanks.toList := by
    rw [String.toList_append, render, String.toList_ofList]
  have hlength : (layout 0 j).length ≤ (j.render ++ blanks).length := by
    rw [← String.length_toList, hlist, List.length_append]
    exact Nat.le_add_right ..
  have hfollows : Follows blanks.toList := by
    rcases hblanks with rfl | rfl
    · exact trivial
    · exact .inr rfl
  have hempty : (skipBlanks blanks.toList).isEmpty = true := by
    rcases hblanks with rfl | rfl <;> rfl
  rw [parse?, hlist, value?_layout h 0 _ _ hlength hfollows]
  simp only [hempty, if_true]

end Json

end Dana
