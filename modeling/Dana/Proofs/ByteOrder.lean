import Mathlib.Algebra.Group.Nat.Defs

/-!
# Names by their bytes

Names compare by code points. The same order comes of comparing them byte by byte in
UTF-8: the first byte of a character tells how many follow, and the more there are the
greater it is; each of those that follow holds six bits of the code point, the highest
first.
-/

namespace Dana

/-- The last `k` bytes of a code point that takes more than one byte. -/
def continuation : Nat → Nat → List UInt8
  | 0, _ => []
  | k + 1, v => UInt8.ofNat (v / 64 ^ k % 64 + 128) :: continuation k v

/-- A code point `v` has `k` bytes after the first, which is `b`. -/
def LeadByte (v k b : Nat) : Prop :=
  (k = 0 ∧ v < 0x80 ∧ b = v) ∨
  (k = 1 ∧ 0x80 ≤ v ∧ v < 0x800 ∧ b = v / 64 + 192) ∨
  (k = 2 ∧ 0x800 ≤ v ∧ v < 0x10000 ∧ b = v / 4096 + 224) ∨
  (k = 3 ∧ 0x10000 ≤ v ∧ v < 0x110000 ∧ b = v / 262144 + 240)

theorem utf8EncodeChar_eq (c : Char) :
    ∃ k b, LeadByte c.val.toNat k b ∧
      String.utf8EncodeChar c = UInt8.ofNat b :: continuation k c.val.toNat := by
  have hmax : c.val.toNat < 0x110000 := by
    have hvalid := c.valid
    simp only [UInt32.isValidChar, Nat.isValidChar] at hvalid
    omega
  rw [String.utf8EncodeChar.eq_1]
  generalize c.val.toNat = v at hmax ⊢
  by_cases h1 : v ≤ 0x7f
  · exact ⟨0, v, .inl ⟨rfl, by omega, rfl⟩, by simp [h1, continuation]⟩
  · by_cases h2 : v ≤ 0x7ff
    · have hmod : v / 64 % 32 = v / 64 := by omega
      exact ⟨1, _, .inr (.inl ⟨rfl, by omega, by omega, rfl⟩), by simp [h1, h2, hmod, continuation]⟩
    · by_cases h3 : v ≤ 0xffff
      · have hmod : v / 4096 % 16 = v / 4096 := by omega
        exact ⟨2, _, .inr (.inr (.inl ⟨rfl, by omega, by omega, rfl⟩)),
          by simp [h1, h2, h3, hmod, continuation]⟩
      · have hmod : v / 262144 % 8 = v / 262144 := by omega
        exact ⟨3, _, .inr (.inr (.inr ⟨rfl, by omega, hmax, rfl⟩)),
          by simp [h1, h2, h3, hmod, continuation]⟩

theorem LeadByte.lt {v w k l a b : Nat} (ha : LeadByte v k a) (hb : LeadByte w l b) (h : v < w) :
    b < 256 ∧ (a < b ∨ a = b ∧ k = l ∧ v % 64 ^ k < w % 64 ^ k) := by
  -- the ranges of first bytes are apart, so equal ones come with equal numbers of bytes
  rcases ha with ⟨rfl, ha⟩ | ⟨rfl, ha⟩ | ⟨rfl, ha⟩ | ⟨rfl, ha⟩ <;>
    rcases hb with ⟨rfl, hb⟩ | ⟨rfl, hb⟩ | ⟨rfl, hb⟩ | ⟨rfl, hb⟩ <;> omega

theorem byte_cons_lt {a b : Nat} {xs ys : List UInt8} (hb : b < 256) (h : a < b ∨ a = b ∧ xs < ys) :
    UInt8.ofNat a :: xs < UInt8.ofNat b :: ys := by
  rw [List.cons_lt_cons_iff]
  rcases h with hlt | ⟨rfl, hlt⟩
  · left
    rw [UInt8.lt_iff_toNat_lt, UInt8.toNat_ofNat', UInt8.toNat_ofNat']
    omega
  · exact .inr ⟨rfl, hlt⟩

theorem digit_lt {m a b r s : Nat} (hs : s < m) (h : r + m * a < s + m * b) : a < b ∨ a = b ∧ r < s := by
  rcases Nat.lt_trichotomy a b with hlt | rfl | hgt
  · exact .inl hlt
  · exact .inr ⟨rfl, Nat.lt_of_add_lt_add_right h⟩
  · have hle : m * (b + 1) ≤ m * a := Nat.mul_le_mul_left m hgt
    rw [Nat.mul_succ] at hle
    omega

theorem continuation_lt {v w : Nat} (xs ys : List UInt8) : ∀ {k : Nat}, v % 64 ^ k < w % 64 ^ k →
    continuation k v ++ xs < continuation k w ++ ys
  | 0, h => by simp [Nat.mod_one] at h
  | k + 1, h => by
    rw [Nat.pow_succ, Nat.mod_mul, Nat.mod_mul] at h
    have hdigit : w / 64 ^ k % 64 < 64 := Nat.mod_lt _ (by decide)
    refine byte_cons_lt (by omega) ?_
    rcases digit_lt (Nat.mod_lt _ (Nat.pow_pos (by decide))) h with hlt | ⟨heq, hlt⟩
    · exact .inl (Nat.add_lt_add_right hlt 128)
    · exact .inr ⟨by rw [heq], continuation_lt xs ys hlt⟩

theorem utf8EncodeChar_lt {c d : Char} (h : c < d) (xs ys : List UInt8) :
    String.utf8EncodeChar c ++ xs < String.utf8EncodeChar d ++ ys := by
  obtain ⟨k, a, ha, hc⟩ := utf8EncodeChar_eq c
  obtain ⟨l, b, hb, hd⟩ := utf8EncodeChar_eq d
  obtain ⟨hbyte, hlt⟩ := ha.lt hb h
  rw [hc, hd]
  refine byte_cons_lt hbyte ?_
  rcases hlt with hlt | ⟨hab, rfl, hlt⟩
  · exact .inl hlt
  · exact .inr ⟨hab, continuation_lt xs ys hlt⟩

theorem flatMap_utf8EncodeChar_lt {cs ds : List Char} (h : cs < ds) :
    cs.flatMap String.utf8EncodeChar < ds.flatMap String.utf8EncodeChar := by
  induction h with
  | nil =>
    rename_i d ds
    obtain ⟨k, b, -, hd⟩ := utf8EncodeChar_eq d
    rw [List.flatMap_cons, hd]
    exact List.nil_lt_cons ..
  | rel h => exact utf8EncodeChar_lt h _ _
  | cons _ ih => exact List.append_left_lt ih

theorem utf8_lt {a b : String} (h : a < b) : a.toUTF8.data.toList < b.toUTF8.data.toList := by
  have hbytes : ∀ s : String, s.toUTF8.data.toList = s.toList.flatMap String.utf8EncodeChar := by
    intro s
    have hs : s.toUTF8 = (String.ofList s.toList).toByteArray := by rw [String.ofList_toList]; rfl
    rw [hs, String.toByteArray_ofList]
    exact List.toList_data_toByteArray
  rw [hbytes, hbytes]
  exact flatMap_utf8EncodeChar_lt (String.lt_iff.mp h)

end Dana
