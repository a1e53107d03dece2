import DeviceStats.Proofs.Decimal.Shortest
import Mathlib.Tactic.NormNum

/-!
# Proofs/Decimal/Nearest — how large the nearest binary number is

`nearest` finds the first bit of a fraction (`le_and_lt_firstBit`) and takes the exponent by it, so
53 bits are left, or fewer at the least exponent (`exists_nearest_eq`).  So the nearest number is
finite where the fraction leaves a bit of room, and more than half of a fraction that is at least
one.
-/

namespace DeviceStats.Decimal.Binary

/-- The exponent of the first bit of a fraction. -/
def firstBit (num den : Nat) : Int :=
  let guess : Int := (num.log2 : Int) - (den.log2 : Int)
  let (a, b) := scale num den (-guess)
  if a < b then guess - 1 else guess

/-- The bits of `m · 2 ^ q` but for its sign, as `nearest` puts them together. -/
def unsigned (m : Nat) (q : Int) : Nat :=
  if m < Nat.pow 2 52 then m else (q + 1074).toNat * Nat.pow 2 52 + m

/-- A scaled fraction is compared with a power of two before scaling. -/
theorem scale_lt_iff (num : Nat) {den : Nat} (hd : 0 < den) (e k : Int) :
    ((scale num den e).1 : ℚ) / (scale num den e).2 < 2 ^ k ↔ (num : ℚ) / den < 2 ^ (k - e) := by
  rw [(scale_ratio num hd e).2, zpow_sub₀ (by norm_num), lt_div_iff₀ (by positivity)]

theorem two_pow_log2_le {n : Nat} (h : 0 < n) : (2 : ℚ) ^ (n.log2 : Int) ≤ n := by
  rw [zpow_natCast]
  exact_mod_cast Nat.log2_self_le h.ne'

theorem lt_two_pow_log2 (n : Nat) : (n : ℚ) < 2 ^ ((n.log2 : Int) + 1) := by
  rw [← Nat.cast_succ, zpow_natCast]
  exact_mod_cast Nat.lt_log2_self

theorem two_pow_log2_sub_le_div {num den : Nat} (hn : 0 < num) (hd : 0 < den) :
    (2 : ℚ) ^ ((num.log2 : Int) - (den.log2 : Int) - 1) ≤ num / den := by
  have hd' : (0 : ℚ) < den := by exact_mod_cast hd
  calc (2 : ℚ) ^ ((num.log2 : Int) - (den.log2 : Int) - 1)
    _ = 2 ^ (num.log2 : Int) / 2 ^ ((den.log2 : Int) + 1) := by
      rw [← zpow_sub₀ (by norm_num)]
      congr 1
      omega
    _ ≤ num / den := div_le_div₀ (by positivity) (two_pow_log2_le hn) hd' (lt_two_pow_log2 den).le

theorem div_lt_two_pow_log2_sub (num : Nat) {den : Nat} (hd : 0 < den) :
    (num : ℚ) / den < 2 ^ ((num.log2 : Int) - (den.log2 : Int) + 1) :=
  calc (num : ℚ) / den
    _ < 2 ^ ((num.log2 : Int) + 1) / 2 ^ (den.log2 : Int) :=
      div_lt_div₀ (lt_two_pow_log2 num) (two_pow_log2_le hd) (by positivity) (by positivity)
    _ = 2 ^ ((num.log2 : Int) - (den.log2 : Int) + 1) := by
      rw [← zpow_sub₀ (by norm_num)]
      congr 1
      omega

/-- A fraction is compared with a power of two by scaling it. -/
theorem scale_fst_lt_snd_iff (num : Nat) {den : Nat} (hd : 0 < den) (e : Int) :
    (scale num den (-e)).1 < (scale num den (-e)).2 ↔ (num : ℚ) / den < 2 ^ e := by
  have hpos : (0 : ℚ) < (scale num den (-e)).2 := by
    exact_mod_cast (scale_ratio num hd (-e)).1
  have h := scale_lt_iff num hd (-e) 0
  rw [zpow_zero, div_lt_one hpos, zero_sub, neg_neg] at h
  exact_mod_cast h

/-- **The first bit of a fraction is not beyond it, and the next one is.** -/
theorem le_and_lt_firstBit {num den : Nat} (hn : 0 < num) (hd : 0 < den) :
    (2 : ℚ) ^ firstBit num den ≤ num / den ∧ (num : ℚ) / den < 2 ^ (firstBit num den + 1) := by
  set guess : Int := (num.log2 : Int) - (den.log2 : Int)
  have hfirst : firstBit num den =
      if (scale num den (-guess)).1 < (scale num den (-guess)).2 then guess - 1 else guess := rfl
  rw [hfirst, if_congr (scale_fst_lt_snd_iff num hd guess) rfl rfl]
  split
  · rename_i hbelow
    rw [sub_add_cancel]
    exact ⟨two_pow_log2_sub_le_div hn hd, hbelow⟩
  · rename_i hbelow
    exact ⟨not_lt.mp hbelow, div_lt_two_pow_log2_sub num hd⟩

theorem div_le_roundEven (num den : Nat) :
    num / den ≤ roundEven num den ∧ roundEven num den ≤ num / den + 1 := by
  unfold roundEven
  simp only
  split
  · omega
  · split
    · omega
    · split <;> omega

/-- **What `nearest` puts together**: a mantissa of 53 bits, or one with fewer and the least
exponent. -/
theorem exists_nearest_eq (negative : Bool) {num den : Nat} (hn : 0 < num) (hd : 0 < den) :
    ∃ (m : Nat) (q : Int), nearest negative num den =
        ((if negative then signBit else 0) + min (unsigned m q) infinity).toUInt64 ∧
      m ≤ 2 ^ 53 ∧ -1074 ≤ q ∧ (num : ℚ) / den < 2 ^ (q + 53) ∧
      (q ≠ -1074 → 2 ^ 52 ≤ m ∧ (2 : ℚ) ^ (q + 52) ≤ num / den) := by
  obtain ⟨hlow, hhigh⟩ := le_and_lt_firstBit hn hd
  set q := max (firstBit num den - 52) (-1074) with hq
  obtain ⟨hb, hratio⟩ := scale_ratio num hd (-q)
  set a := (scale num den (-q)).1 with ha
  set b := (scale num den (-q)).2 with hb'
  have hbpos : (0 : ℚ) < b := by exact_mod_cast hb
  obtain ⟨hfloor, hceil⟩ := div_le_roundEven a b
  refine ⟨roundEven a b, q, by rw [nearest, if_neg hn.ne']; rfl, ?_, le_max_right _ _, ?_, ?_⟩
  · have hlt : (a : ℚ) < 2 ^ 53 * b := by
      rw [← div_lt_iff₀ hbpos]
      have h := (scale_lt_iff num hd (-q) 53).mpr
        (hhigh.trans_le (zpow_le_zpow_right₀ (by norm_num) (by omega)))
      exact_mod_cast h
    have hdiv : a / b < 2 ^ 53 := (Nat.div_lt_iff_lt_mul hb).mpr (by exact_mod_cast hlt)
    omega
  · exact hhigh.trans_le (zpow_le_zpow_right₀ (by norm_num) (by omega))
  · intro hleast
    have hfirst : q + 52 = firstBit num den := by omega
    refine ⟨?_, hfirst ▸ hlow⟩
    have hle : (2 : ℚ) ^ 52 * b ≤ a := by
      rw [← le_div_iff₀ hbpos, ← not_lt]
      have h := mt (scale_lt_iff num hd (-q) 52).mp
        (not_lt.mpr (by rwa [sub_neg_eq_add, add_comm, hfirst]))
      exact_mod_cast h
    have hdiv : 2 ^ 52 ≤ a / b := (Nat.le_div_iff_mul_le hb).mpr (by exact_mod_cast hle)
    exact hdiv.trans hfloor

/-! ## Finite numbers -/

theorem toNat_bits (negative : Bool) {k : Nat} (h : k ≤ infinity) :
    ((if negative then signBit else 0) + k).toUInt64.toNat =
      (if negative then signBit else 0) + k := by
  have hk : k ≤ 0x7FF * 2 ^ 52 := h
  refine Nat.mod_eq_of_lt ?_
  simp only [signBit, Nat.pow_eq]
  split <;> omega

/-- Bits below those of infinity are those of a finite number. -/
theorem isSome_decode?_of_lt {k : Nat} (negative : Bool) (h : k < infinity) :
    (decode? ((if negative then signBit else 0) + k).toUInt64).isSome = true := by
  have hk : k < 0x7FF * 2 ^ 52 := h
  have htoNat := toNat_bits negative h.le
  have hbiased : ((if negative then signBit else 0) + k) / 2 ^ 52 % 0x800 ≠ 0x7FF := by
    simp only [signBit, Nat.pow_eq]
    split <;> omega
  generalize (if negative then signBit else 0) + k = n at htoNat hbiased ⊢
  unfold decode?
  simp only [htoNat, Nat.pow_eq, if_neg hbiased]
  split <;> rfl

/-- **Where a fraction leaves a bit of room, the nearest number is finite.** -/
theorem isSome_decode?_nearest (negative : Bool) {num den : Nat} (hd : 0 < den)
    (h : (num : ℚ) / den < 2 ^ (1023 : Int)) :
    (decode? (nearest negative num den)).isSome = true := by
  rcases Nat.eq_zero_or_pos num with rfl | hn
  · have hzero : nearest negative 0 den = (if negative then signBit else 0).toUInt64 := by
      rw [nearest, if_pos rfl]
    rw [hzero]
    cases negative <;> rfl
  · obtain ⟨m, q, heq, hm, hq, -, hnormal⟩ := exists_nearest_eq negative hn hd
    have hlt : unsigned m q < infinity := by
      have hq' : q ≤ 970 := by
        rcases eq_or_ne q (-1074) with rfl | hne
        · decide
        · have := (zpow_lt_zpow_iff_right₀ (by norm_num)).mp ((hnormal hne).2.trans_lt h)
          omega
      simp only [unsigned, infinity, Nat.pow_eq]
      split <;> omega
    rw [heq, min_eq_left hlt.le]
    exact isSome_decode?_of_lt negative hlt

/-- A finite number has its exponent below that of infinity. -/
theorem exponent_le_of_decode? {bits : UInt64} {b : Binary} (h : decode? bits = some b) :
    b.exponent ≤ 971 := by
  simp only [decode?] at h
  split at h
  · cases h
  · split at h <;> cases h <;> simp only <;> omega

theorem value_lt_of_decode? {bits : UInt64} {b : Binary} (h : decode? bits = some b) :
    b.value < 2 ^ (1024 : Int) := by
  have hm : (b.mantissa : ℚ) < 2 ^ (53 : Int) := by exact_mod_cast (canonical_of_decode? h).1.lt
  calc b.value
    _ < 2 ^ (53 : Int) * 2 ^ b.exponent := mul_lt_mul_of_pos_right hm (by positivity)
    _ = 2 ^ (53 + b.exponent) := (zpow_add₀ (by norm_num) _ _).symm
    _ ≤ 2 ^ (1024 : Int) :=
      zpow_le_zpow_right₀ (by norm_num) (by have := exponent_le_of_decode? h; omega)

/-- **Nothing that is at least one loses half of itself.** -/
theorem half_lt_value_of_nearest {negative : Bool} {num den : Nat} {b : Binary}
    (hb : decode? (nearest negative num den) = some b) (hd : 0 < den) (h : (1 : ℚ) ≤ num / den) :
    (num : ℚ) / den / 2 < b.value := by
  have hn : 0 < num := by
    refine Nat.pos_of_ne_zero ?_
    rintro rfl
    rw [Nat.cast_zero, zero_div] at h
    exact absurd h (by norm_num)
  obtain ⟨m, q, heq, hm, -, hlt, hnormal⟩ := exists_nearest_eq negative hn hd
  have hq : 0 < q + 53 := (one_lt_zpow_iff_right₀ (by norm_num)).mp (h.trans_lt hlt)
  have hfull := (hnormal (by omega)).1
  obtain ⟨hcanonical, hbits⟩ := canonical_of_decode? hb
  have hle := exponent_le_of_decode? hb
  have hmlt := hcanonical.lt
  have hleast := hcanonical.le
  -- The parts that are read are those put together, up to a carry.
  have hparts : 2 ^ 52 ≤ b.mantissa ∧ q ≤ b.exponent := by
    rw [heq, toNat_bits negative (min_le_right _ _)] at hbits
    simp only [unsigned, infinity, signBit, Nat.pow_eq] at hbits
    split at hbits <;> split at hbits <;> split at hbits <;> split at hbits <;> omega
  have hmantissa : (2 : ℚ) ^ (52 : Int) ≤ b.mantissa := by exact_mod_cast hparts.1
  calc (num : ℚ) / den / 2
    _ < 2 ^ (q + 53) / 2 := by gcongr
    _ = 2 ^ (52 : Int) * 2 ^ q := by
      rw [← zpow_add₀ (by norm_num), div_eq_iff (by norm_num), ← zpow_add_one₀ (by norm_num)]
      congr 1
      omega
    _ ≤ b.value := mul_le_mul hmantissa (zpow_le_zpow_right₀ (by norm_num) hparts.2) (by positivity)
        (by positivity)

end DeviceStats.Decimal.Binary
