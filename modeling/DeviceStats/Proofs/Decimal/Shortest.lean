import DeviceStats.Decimal.Shortest
import Mathlib.Algebra.Order.Field.Power
import Mathlib.Data.Rat.Cast.Order
import Mathlib.Tactic.FieldSimp
import Mathlib.Tactic.Linarith
import Mathlib.Tactic.Positivity
import Mathlib.Tactic.Ring

/-!
# Proofs/Decimal/Shortest — the shortest decimal reads back as its number alone

What reads back as a binary number lies between the points halfway to its neighbours, so no decimal
reads back as two numbers (`Binary.eq_of_reads`).  On the grid of decimals with 17 digits the
nearer neighbour of a number always reads back, as the grid is finer than the numbers, so `shortest`
finds a decimal that does (`Binary.reads_shortest`).
-/

namespace DeviceStats.Decimal

/-! ## Values -/

def Scientific.value (d : Scientific) : ℚ := d.digits * 10 ^ d.exponent

section Powers

variable {base : Nat} {e : Int}

theorem zpow_of_nonneg (h : 0 ≤ e) : (base : ℚ) ^ e = (Nat.pow base e.toNat : Nat) := by
  lift e to Nat using h
  simp

theorem zpow_of_neg (h : ¬ 0 ≤ e) : (base : ℚ) ^ e = 1 / (Nat.pow base (-e).toNat : Nat) := by
  have h : e = -((-e).toNat : Int) := by omega
  generalize (-e).toNat = k at h
  subst h
  simp

end Powers

namespace Binary

/-- The value of a finite number without its sign. -/
def value (b : Binary) : ℚ := b.mantissa * 2 ^ b.exponent

/-- A number as bits hold it: with 53 bits, or with fewer and the least exponent. -/
structure Canonical (b : Binary) : Prop where
  lt : b.mantissa < 2 ^ 53
  le : -1074 ≤ b.exponent
  full : b.exponent ≠ -1074 → 2 ^ 52 ≤ b.mantissa

/-- The bits of a finite number, put together from its parts. -/
theorem canonical_of_decode? {bits : UInt64} {b : Binary} (h : decode? bits = some b) :
    b.Canonical ∧ bits.toNat = (if b.negative then 2 ^ 63 else 0) +
      if b.mantissa < 2 ^ 52 then b.mantissa
      else (b.exponent + 1074).toNat * 2 ^ 52 + b.mantissa := by
  have hlt := bits.toNat_lt
  simp only [decode?, signBit, Nat.pow_eq, Nat.reducePow] at h
  split at h
  · cases h
  · split at h <;> cases h <;> refine ⟨⟨?_, ?_, ?_⟩, ?_⟩ <;>
      simp only [decide_eq_true_eq, ge_iff_le, Nat.reducePow] <;>
      first | omega | (split <;> split <;> omega)

/-- Bits of finite numbers tell the numbers apart. -/
theorem decode?_inj {x y : UInt64} {b : Binary} (hx : decode? x = some b)
    (hy : decode? y = some b) : x = y :=
  UInt64.toNat_inj.mp ((canonical_of_decode? hx).2.trans (canonical_of_decode? hy).2.symm)

theorem scale_ratio (num : Nat) {den : Nat} (hd : 0 < den) (e : Int) : 0 < (scale num den e).2 ∧
    ((scale num den e).1 : ℚ) / (scale num den e).2 = num / den * 2 ^ e := by
  have htwo : (2 : ℚ) = (2 : Nat) := rfl
  by_cases h : 0 ≤ e
  · rw [scale, if_pos h, htwo, zpow_of_nonneg h]
    refine ⟨hd, ?_⟩
    push_cast
    ring
  · rw [scale, if_neg h, htwo, zpow_of_neg h]
    refine ⟨Nat.mul_pos hd (Nat.pow_pos (by decide)), ?_⟩
    push_cast
    rw [div_mul_div_comm, mul_one]

theorem magnitude_ratio (b : Binary) :
    0 < b.magnitude.2 ∧ (b.magnitude.1 : ℚ) / b.magnitude.2 = b.value := by
  obtain ⟨hden, hvalue⟩ := scale_ratio b.mantissa Nat.one_pos b.exponent
  rw [Nat.cast_one, div_one] at hvalue
  exact ⟨hden, hvalue⟩

end Binary

/-! ## What reads back -/

namespace Binary

/-- The upper end of what reads back as a number. -/
def upper (b : Binary) : ℚ := (ends b).2 * 2 ^ (b.exponent - 2)

/-- The lower end of what reads back as a number. -/
def lower (b : Binary) : ℚ := (ends b).1 * 2 ^ (b.exponent - 2)

/-- Whether what reads back as a number is `x`. -/
def Reads (b : Binary) (x : ℚ) : Prop :=
  if b.mantissa % 2 = 0 then b.lower ≤ x ∧ x ≤ b.upper else b.lower < x ∧ x < b.upper

theorem Reads.le {b : Binary} {x : ℚ} (h : b.Reads x) : b.lower ≤ x ∧ x ≤ b.upper := by
  unfold Reads at h
  split at h
  · exact h
  · exact ⟨h.1.le, h.2.le⟩

theorem Reads.lt {b : Binary} {x : ℚ} (h : b.Reads x) (hodd : b.mantissa % 2 = 1) :
    b.lower < x ∧ x < b.upper := by
  rwa [Reads, if_neg (by omega)] at h

theorem reads_of_lt {b : Binary} {x : ℚ} (hlo : b.lower < x) (hhi : x < b.upper) : b.Reads x := by
  unfold Reads
  split
  · exact ⟨hlo.le, hhi.le⟩
  · exact ⟨hlo, hhi⟩

/-- What reads back as a positive number is positive. -/
theorem Reads.pos {b : Binary} {x : ℚ} (h : b.Reads x) (hpos : 0 < b.mantissa) : 0 < x := by
  have hlow : 0 < (ends b).1 := by
    unfold ends
    simp only
    split <;> omega
  have hlow' : (0 : ℚ) < (ends b).1 := by exact_mod_cast hlow
  exact (mul_pos hlow' (by positivity)).trans_le h.le.1

/-- A power of ten as `readsBack` takes it: over one, or under it. -/
theorem exists_ratio_eq_ten_pow (e : Int) : ∃ t u : Nat,
    (if 0 ≤ e then (Nat.pow 10 e.toNat, 1) else (1, Nat.pow 10 (-e).toNat)) = (t, u) ∧
      0 < u ∧ (t : ℚ) / u = 10 ^ e := by
  have hbase : (10 : ℚ) = (10 : Nat) := rfl
  by_cases h : 0 ≤ e
  · exact ⟨_, _, if_pos h, Nat.one_pos, by rw [hbase, zpow_of_nonneg h]; simp⟩
  · exact ⟨_, _, if_neg h, Nat.pow_pos (by decide), by rw [hbase, zpow_of_neg h]; simp⟩

/-- What reads back is checked without fractions. -/
theorem reads_iff {b : Binary} {d : Scientific} : readsBack b d = true ↔ b.Reads d.value := by
  obtain ⟨hr, hpr⟩ := scale_ratio 1 Nat.one_pos (b.exponent - 2)
  obtain ⟨t, u, htu, hu, hten⟩ := exists_ratio_eq_ten_pow d.exponent
  set p := (scale 1 1 (b.exponent - 2)).1
  set r := (scale 1 1 (b.exponent - 2)).2
  have hpow : (2 : ℚ) ^ (b.exponent - 2) = p / r := by simpa using hpr.symm
  have hle (k : Nat) : (k * 2 ^ (b.exponent - 2) ≤ d.value ↔ k * p * u ≤ d.digits * t * r) ∧
      (d.value ≤ k * 2 ^ (b.exponent - 2) ↔ d.digits * t * r ≤ k * p * u) := by
    rw [Scientific.value, ← hten, hpow, mul_div_assoc', mul_div_assoc',
      div_le_div_iff₀ (by positivity) (by positivity),
      div_le_div_iff₀ (by positivity) (by positivity)]
    exact ⟨by norm_cast, by norm_cast⟩
  have hsplit : readsBack b d =
      if b.mantissa % 2 = 0 then
        decide ((ends b).1 * p * u ≤ d.digits * t * r) &&
          decide (d.digits * t * r ≤ (ends b).2 * p * u)
      else decide ((ends b).1 * p * u < d.digits * t * r) &&
        decide (d.digits * t * r < (ends b).2 * p * u) := by
    simp only [readsBack, htu]
    rfl
  rw [hsplit, Reads, upper, lower]
  split
  · rw [Bool.and_eq_true_iff, decide_eq_true_eq, decide_eq_true_eq, (hle _).1, (hle _).2]
  · rw [Bool.and_eq_true_iff, decide_eq_true_eq, decide_eq_true_eq, ← not_le, ← not_le, ← not_le,
      ← not_le, (hle _).1, (hle _).2]

/-- The lower end of a number is at least that of the least number with its exponent. -/
theorem upper_le_lower_of_exponent_lt {b c : Binary} (hb : b.Canonical) (hc : c.Canonical)
    (h : b.exponent < c.exponent) :
    b.upper ≤ c.lower ∧ (b.upper = c.lower → b.mantissa % 2 = 1) := by
  have hpos : (0 : ℚ) < 2 ^ (b.exponent - 2) := by positivity
  have hends : (ends b).2 ≤ 2 ^ 55 - 2 ∧ 2 ^ 54 - 1 ≤ (ends c).1 ∧
      ((ends b).2 = 2 ^ 55 - 2 → b.mantissa % 2 = 1) := by
    have hlt := hb.lt
    have hle := hb.le
    have hfull := hc.full
    simp only [ends, Nat.pow_eq, Nat.reducePow] at *
    split <;> omega
  have htwo : (2 : ℚ) * 2 ^ (b.exponent - 2) ≤ 2 ^ (c.exponent - 2) := by
    rw [← zpow_one_add₀ (by norm_num)]
    exact zpow_le_zpow_right₀ (by norm_num) (by omega)
  have hlow : (2 ^ 55 - 2 : Nat) * (2 : ℚ) ^ (b.exponent - 2) ≤ c.lower :=
    calc ((2 ^ 55 - 2 : Nat) : ℚ) * 2 ^ (b.exponent - 2)
      _ = (2 ^ 54 - 1 : Nat) * (2 * 2 ^ (b.exponent - 2)) := by norm_num; ring
      _ ≤ c.lower :=
        mul_le_mul (by exact_mod_cast hends.2.1) htwo (by positivity) (by positivity)
  refine ⟨le_trans (mul_le_mul_of_nonneg_right (by exact_mod_cast hends.1) hpos.le) hlow,
    fun heq => hends.2.2 (le_antisymm hends.1 ?_)⟩
  exact_mod_cast le_of_mul_le_mul_right (heq ▸ hlow) hpos

theorem upper_le_lower_of_mantissa_lt {b c : Binary} (heq : b.exponent = c.exponent)
    (h : b.mantissa < c.mantissa) :
    b.upper ≤ c.lower ∧ (b.upper = c.lower → b.mantissa % 2 = 1 ∨ c.mantissa % 2 = 1) := by
  have hpos : (0 : ℚ) < 2 ^ (b.exponent - 2) := by positivity
  have hends : (ends b).2 ≤ (ends c).1 ∧
      ((ends b).2 = (ends c).1 → b.mantissa % 2 = 1 ∨ c.mantissa % 2 = 1) := by
    simp only [ends, Nat.pow_eq, Nat.reducePow] at *
    split <;> omega
  unfold upper lower
  rw [← heq]
  refine ⟨mul_le_mul_of_nonneg_right (by exact_mod_cast hends.1) hpos.le, fun h => hends.2 ?_⟩
  exact_mod_cast mul_right_cancel₀ hpos.ne' h

/-- **What reads back lies between the points halfway to the neighbours**, so it is below what reads
back as a greater number. -/
theorem upper_le_lower {b c : Binary} (hb : b.Canonical) (hc : c.Canonical)
    (h : b.exponent < c.exponent ∨ b.exponent = c.exponent ∧ b.mantissa < c.mantissa) :
    b.upper ≤ c.lower ∧ (b.upper = c.lower → b.mantissa % 2 = 1 ∨ c.mantissa % 2 = 1) := by
  rcases h with hlt | ⟨heq, hlt⟩
  · obtain ⟨hle, hodd⟩ := upper_le_lower_of_exponent_lt hb hc hlt
    exact ⟨hle, fun h => .inl (hodd h)⟩
  · exact upper_le_lower_of_mantissa_lt heq hlt

/-- What reads back as a number does not read back as a greater one. -/
theorem Reads.not_reads_of_lt {b c : Binary} {x : ℚ} (h : b.Reads x) (hb : b.Canonical)
    (hc : c.Canonical)
    (hlt : b.exponent < c.exponent ∨ b.exponent = c.exponent ∧ b.mantissa < c.mantissa) :
    ¬ c.Reads x := by
  intro h'
  obtain ⟨hle, hodd⟩ := upper_le_lower hb hc hlt
  have heq : b.upper = c.lower := le_antisymm hle (h'.le.1.trans h.le.2)
  rcases hodd heq with hodd | hodd
  · exact absurd h'.le.1 (not_le.mpr (heq ▸ (h.lt hodd).2))
  · exact absurd h.le.2 (not_le.mpr (heq ▸ (h'.lt hodd).1))

/-- **Nothing reads back as two numbers.** -/
theorem eq_of_reads {b c : Binary} {x : ℚ} (hb : b.Canonical) (hc : c.Canonical) (h : b.Reads x)
    (h' : c.Reads x) : b.mantissa = c.mantissa ∧ b.exponent = c.exponent := by
  have hbc := mt (h.not_reads_of_lt hb hc) (not_not_intro h')
  have hcb := mt (h'.not_reads_of_lt hc hb) (not_not_intro h)
  omega

theorem value_eq_quarters (b : Binary) : b.value = 4 * b.mantissa * 2 ^ (b.exponent - 2) := by
  rw [value, zpow_sub₀ (by norm_num)]
  norm_num
  ring

/-- The lower end is one or two quarters of the unit of the last bit away, and the upper end is no
nearer. -/
theorem exists_ends_eq {b : Binary} (hb : b.Canonical) (hpos : 0 < b.mantissa) :
    ∃ k : Nat, 2 * b.mantissa < k * 10 ^ 16 ∧ b.lower = b.value - k * 2 ^ (b.exponent - 2) ∧
      b.value + k * 2 ^ (b.exponent - 2) ≤ b.upper := by
  obtain ⟨k, hk, hle, hlow⟩ : ∃ k : Nat, 2 * b.mantissa < k * 10 ^ 16 ∧ k ≤ 2 ∧
      (ends b).1 + k = 4 * b.mantissa := by
    have hlt := hb.lt
    simp only [ends, Nat.pow_eq, Nat.reducePow] at *
    split
    · exact ⟨1, by omega, by omega, by omega⟩
    · exact ⟨2, by omega, by omega, by omega⟩
  refine ⟨k, hk, ?_, ?_⟩
  · have hlow' : ((ends b).1 : ℚ) = 4 * b.mantissa - k :=
      eq_sub_of_add_eq (by exact_mod_cast hlow)
    rw [lower, hlow', value_eq_quarters]
    ring
  · have hk' : (k : ℚ) ≤ 2 := by exact_mod_cast hle
    have hends : ((ends b).2 : ℚ) = 4 * b.mantissa + 2 := by simp [ends]
    rw [upper, hends, value_eq_quarters, ← add_mul]
    exact mul_le_mul_of_nonneg_right (by linarith) (by positivity)

/-- What is nearer to a number than the 17th digit reads back as it. -/
theorem reads_of_near {b : Binary} (hb : b.Canonical) (hpos : 0 < b.mantissa) {x : ℚ}
    (h : |x - b.value| ≤ b.value / 10 ^ 16 / 2) : b.Reads x := by
  obtain ⟨k, hk, hlower, hupper⟩ := exists_ends_eq hb hpos
  have hk' : (2 * b.mantissa : ℚ) < k * 10 ^ 16 := by exact_mod_cast hk
  have hnear : b.value / 10 ^ 16 / 2 < k * 2 ^ (b.exponent - 2) :=
    calc b.value / 10 ^ 16 / 2
      _ = 2 * b.mantissa / 10 ^ 16 * 2 ^ (b.exponent - 2) := by rw [value_eq_quarters]; ring
      _ < k * 2 ^ (b.exponent - 2) :=
        mul_lt_mul_of_pos_right ((div_lt_iff₀ (by positivity)).mpr hk') (by positivity)
  obtain ⟨hlo, hhi⟩ := abs_le.mp h
  exact reads_of_lt (by linarith) (by linarith)

end Binary

/-! ## The search -/

theorem lt_ten_pow_countDigits (n : Nat) : n < 10 ^ countDigits n :=
  (Nat.length_toDigits_le_iff (by decide) Nat.length_toDigits_pos).mp le_rfl

theorem ten_pow_countDigits_le {n : Nat} (h : 0 < n) : 10 ^ (countDigits n - 1) ≤ n := by
  rcases Nat.eq_zero_or_pos (countDigits n - 1) with hz | hpos
  · rw [hz]
    exact h
  · refine not_lt.mp fun hlt => ?_
    have hle := (Nat.length_toDigits_le_iff (by decide) hpos).mpr hlt
    unfold countDigits at hle hpos
    omega

/-- The first digit of a fraction is not beyond it. -/
theorem ten_pow_firstExponent_le {num den : Nat} (hn : 0 < num) (hd : 0 < den) :
    (10 : ℚ) ^ firstExponent num den ≤ num / den := by
  have hbase : (10 : ℚ) = (10 : Nat) := rfl
  have hd' : (0 : ℚ) < den := by exact_mod_cast hd
  set k : Int := (countDigits num : Int) - (countDigits den : Int) with hk
  by_cases hreach : if 0 ≤ k then den * Nat.pow 10 k.toNat ≤ num
      else den ≤ num * Nat.pow 10 (-k).toNat
  · have hfirst : firstExponent num den = k := if_pos hreach
    rw [hfirst]
    by_cases h : 0 ≤ k
    · rw [if_pos h] at hreach
      rw [hbase, zpow_of_nonneg h, le_div_iff₀ hd', mul_comm]
      exact_mod_cast hreach
    · rw [if_neg h] at hreach
      rw [hbase, zpow_of_neg h, div_le_div_iff₀ (by exact_mod_cast Nat.pow_pos (by decide)) hd',
        one_mul]
      exact_mod_cast hreach
  · have hfirst : firstExponent num den = k - 1 := if_neg hreach
    have hcount : 1 ≤ countDigits num := Nat.length_toDigits_pos
    rw [hfirst]
    calc (10 : ℚ) ^ (k - 1)
      _ = 10 ^ (countDigits num - 1) / 10 ^ countDigits den := by
        rw [← zpow_natCast, ← zpow_natCast, ← zpow_sub₀ (by norm_num)]
        congr 1
        omega
      _ ≤ num / den :=
        div_le_div₀ (by positivity) (by exact_mod_cast ten_pow_countDigits_le hn) hd'
          (by exact_mod_cast (lt_ten_pow_countDigits den).le)

/-- A fraction is at most half a unit from the whole number below it or above it. -/
theorem near_whole {a b : Nat} (hb : 0 < b) :
    (2 * (a % b) ≤ b → |((a / b : Nat) : ℚ) - a / b| ≤ 1 / 2) ∧
      (b ≤ 2 * (a % b) → |((a / b + 1 : Nat) : ℚ) - a / b| ≤ 1 / 2) := by
  have hb' : (0 : ℚ) < b := by exact_mod_cast hb
  have hdiv : (a : ℚ) / b = (a / b : Nat) + (a % b : Nat) / b := by
    rw [div_eq_iff hb'.ne', add_mul, div_mul_cancel₀ _ hb'.ne']
    exact_mod_cast (Nat.div_add_mod' a b).symm
  have hpos : (0 : ℚ) ≤ (a % b : Nat) / b := by positivity
  have hone : ((a % b : Nat) : ℚ) / b ≤ 1 :=
    (div_le_one hb').mpr (by exact_mod_cast (Nat.mod_lt a hb).le)
  refine ⟨fun h => ?_, fun h => ?_⟩
  · have hhalf : ((a % b : Nat) : ℚ) / b ≤ 1 / 2 := by
      rw [div_le_div_iff₀ hb' (by norm_num)]
      exact_mod_cast (by omega : a % b * 2 ≤ 1 * b)
    rw [hdiv, abs_le]
    constructor <;> linarith
  · have hhalf : 1 / 2 ≤ ((a % b : Nat) : ℚ) / b := by
      rw [div_le_div_iff₀ (by norm_num) hb']
      exact_mod_cast (by omega : 1 * b ≤ a % b * 2)
    rw [hdiv, abs_le]
    push_cast
    constructor <;> linarith

/-- A fraction in units of a power of ten. -/
theorem exists_units (num : Nat) {den : Nat} (hd : 0 < den) (e : Int) : ∃ a b : Nat,
    (if 0 ≤ e then (num, den * Nat.pow 10 e.toNat) else (num * Nat.pow 10 (-e).toNat, den)) =
      (a, b) ∧ 0 < b ∧ (num : ℚ) / den = a / b * 10 ^ e := by
  have hbase : (10 : ℚ) = (10 : Nat) := rfl
  have hd' : (den : ℚ) ≠ 0 := by exact_mod_cast hd.ne'
  by_cases h : 0 ≤ e
  · refine ⟨_, _, if_pos h, Nat.mul_pos hd (Nat.pow_pos (by decide)), ?_⟩
    rw [hbase, zpow_of_nonneg h]
    push_cast
    field_simp
  · refine ⟨_, _, if_neg h, hd, ?_⟩
    rw [hbase, zpow_of_neg h]
    push_cast
    field_simp

/-- The nearer neighbour on a grid is not farther than half its width. -/
theorem exists_mem_neighbours (num : Nat) {den : Nat} (hd : 0 < den) (e : Int) :
    ∃ d ∈ neighbours num den e, |d.value - num / den| ≤ 10 ^ e / 2 := by
  have hten : (0 : ℚ) < 10 ^ e := by positivity
  obtain ⟨a, b, hab, hb, hratio⟩ := exists_units num hd e
  have hnear (d : Scientific) (hd : d.exponent = e) (hle : |(d.digits : ℚ) - a / b| ≤ 1 / 2) :
      |d.value - num / den| ≤ 10 ^ e / 2 := by
    rw [Scientific.value, hd, hratio, ← sub_mul, abs_mul, abs_of_pos hten]
    linarith [mul_le_mul_of_nonneg_right hle hten.le]
  have hneighbours : neighbours num den e =
      if a % b = 0 then [⟨a / b, e⟩]
      else if 2 * (a % b) < b ∨ (2 * (a % b) = b ∧ a / b % 2 = 0) then [⟨a / b, e⟩, ⟨a / b + 1, e⟩]
      else [⟨a / b + 1, e⟩, ⟨a / b, e⟩] := by
    simp only [neighbours, hab]
  rw [hneighbours]
  by_cases hhalf : 2 * (a % b) ≤ b
  · refine ⟨⟨a / b, e⟩, ?_, hnear _ rfl ((near_whole hb).1 hhalf)⟩
    split
    · simp
    · split <;> simp
  · refine ⟨⟨a / b + 1, e⟩, ?_, hnear _ rfl ((near_whole hb).2 (by omega))⟩
    rw [if_neg (by omega), if_neg (by omega)]
    exact List.mem_cons_self

/-- Zeros at the end of the digits do not change the value. -/
theorem Scientific.value_trim (fuel : Nat) (d : Scientific) : (trim fuel d).value = d.value := by
  induction fuel generalizing d with
  | zero => rfl
  | succ fuel ih =>
    rw [trim]
    split
    · rename_i h
      have hdigits : (d.digits : ℚ) = (d.digits / 10 : Nat) * 10 := by
        exact_mod_cast (Nat.div_mul_cancel (Nat.dvd_of_mod_eq_zero h.2)).symm
      rw [ih, value, value, hdigits, zpow_add_one₀ (by norm_num)]
      ring
    · rfl

/-- **The shortest decimal of a number reads back as it.** -/
theorem Binary.reads_shortest {b : Binary} (hb : b.Canonical) (hpos : 0 < b.mantissa) :
    b.Reads (shortest b).value := by
  obtain ⟨hden, hvalue⟩ := magnitude_ratio b
  set num := b.magnitude.1
  set den := b.magnitude.2
  have hvalue : b.value = num / den := hvalue.symm
  have hnum : 0 < num := by
    have hm : (0 : ℚ) < b.mantissa := by exact_mod_cast hpos
    have hfraction : (0 : ℚ) < num / den := hvalue ▸ mul_pos hm (by positivity)
    refine Nat.pos_of_ne_zero fun hz => ?_
    rw [hz, Nat.cast_zero, zero_div] at hfraction
    exact lt_irrefl _ hfraction
  set first := firstExponent num den with hfirst
  have hshortest : shortest b = (((List.range 17).findSome? fun (k : Nat) =>
      (neighbours num den (first - k)).find? (readsBack b)).getD
        ⟨b.mantissa, b.exponent⟩).trim 20 := rfl
  rw [hshortest, Scientific.value_trim]
  cases hhit : (List.range 17).findSome? fun (k : Nat) =>
      (neighbours num den (first - k)).find? (readsBack b) with
  | some d =>
    obtain ⟨k, -, hd⟩ := List.exists_of_findSome?_eq_some hhit
    exact reads_iff.mp (List.find?_some hd)
  | none =>
    -- With 17 digits the grid is finer than the numbers.
    obtain ⟨d, hd, hnear⟩ := exists_mem_neighbours num hden (first - (16 : Nat))
    have hwidth : (10 : ℚ) ^ (first - (16 : Nat)) ≤ b.value / 10 ^ 16 := by
      rw [zpow_sub₀ (by norm_num), zpow_natCast, hvalue]
      exact div_le_div_of_nonneg_right (ten_pow_firstExponent_le hnum hden) (by positivity)
    have hreads : b.Reads d.value :=
      reads_of_near hb hpos (by rw [hvalue] at hwidth ⊢; linarith)
    have hmiss := List.findSome?_eq_none_iff.mp hhit 16 (by simp)
    exact absurd (reads_iff.mpr hreads) (List.find?_eq_none.mp hmiss d hd)

end DeviceStats.Decimal
