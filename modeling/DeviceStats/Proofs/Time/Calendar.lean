import DeviceStats.Time.Calendar
import Mathlib.Tactic.IntervalCases

/-!
# Proofs/Time/Calendar — days and dates tell each other

An era of 400 years has four centuries, a century 25 cycles of four years, a cycle four years, and
all but the last of each kind are alike (`exists_inEra`).  So the year of a day is read off by
divisions (`yearOfEra_eq`), the date found for a day is real (`isValid_ofDays`), and the day is
found again from the date (`toDays_ofDays`).
-/

namespace DeviceStats.Time.Date

/-! ## Years of an era -/

/-- A day of an era by its century, the cycle in that, the year in that and the day of the year. -/
structure InEra (d q u k w : Nat) : Prop where
  century : q ≤ 3
  cycle : u ≤ 24
  year : k ≤ 3
  eq : d = 36524 * q + 1461 * u + 365 * k + w
  day : w ≤ 365
  /-- The last day of a leap year. -/
  long : w = 365 → k = 3 ∧ (u = 24 → q = 3)

theorem exists_inEra {d : Nat} (h : d < 146097) : ∃ q u k w, InEra d q u k w := by
  have hcentury : ∃ q r, q ≤ 3 ∧ d = 36524 * q + r ∧ r ≤ 36524 ∧ (r = 36524 → q = 3) :=
    ⟨min (d / 36524) 3, d - 36524 * min (d / 36524) 3, by omega⟩
  obtain ⟨q, r, hq, hd, hr, hlast⟩ := hcentury
  have hyear : ∃ k w, k ≤ 3 ∧ r % 1461 = 365 * k + w ∧ w ≤ 365 ∧ (w = 365 → k = 3) :=
    ⟨min (r % 1461 / 365) 3, r % 1461 - 365 * min (r % 1461 / 365) 3, by omega⟩
  obtain ⟨k, w, hk, hrem, hw, hlong⟩ := hyear
  exact ⟨q, r / 1461, k, w, hq, by omega, hk, by omega, hw,
    fun h => ⟨hlong h, fun hu => hlast (by omega)⟩⟩

variable {d q u k w : Nat}

/-- **The divisions find the year**, counted from the beginning of the era. -/
theorem InEra.yearOfEra_eq (h : InEra d q u k w) :
    (d - d / 1460 + d / 36524 - d / 146096) / 365 = 100 * q + 4 * u + k := by
  obtain ⟨hq, hu, hk, hd, hw, hlong⟩ := h
  have hlast : d / 146096 = if q = 3 ∧ u = 24 ∧ k = 3 ∧ w = 365 then 1 else 0 := by
    split <;> omega
  have hcentury : d / 36524 = if q = 3 ∧ u = 24 ∧ k = 3 ∧ w = 365 then 4 else q := by
    split <;> omega
  have hcycle : d / 1460 = 25 * q + u + (24 * q + u + 365 * k + w) / 1460 := by omega
  rw [hlast, hcentury, hcycle]
  split <;> omega

/-- The days before the year. -/
theorem InEra.daysBeforeYear (h : InEra d q u k w) :
    365 * (100 * q + 4 * u + k) + (100 * q + 4 * u + k) / 4 - (100 * q + 4 * u + k) / 100 + w =
      d := by
  obtain ⟨hq, hu, hk, hd, hw, hlong⟩ := h
  omega

/-! ## Days of a year -/

/-- The month of a day of the year, counted from March. -/
def monthFromMarch (w : Nat) : Nat := (5 * w + 2) / 153

theorem monthFromMarch_le (h : w ≤ 365) : monthFromMarch w ≤ 11 := by
  unfold monthFromMarch
  omega

theorem daysBefore_monthFromMarch_le (w : Nat) : (153 * monthFromMarch w + 2) / 5 ≤ w := by
  unfold monthFromMarch
  omega

/-- The month of the calendar, counted from January. -/
def monthOf (m : Nat) : Nat := if m < 10 then m + 3 else m - 9

theorem daysBefore_monthOf {m : Nat} (h : m ≤ 11) : daysBefore (monthOf m) = (153 * m + 2) / 5 := by
  unfold daysBefore monthOf
  interval_cases m <;> rfl

/-- **The date of a day**, by its era and its place in that. -/
theorem ofDays_eq (days : Int) : ∃ (era : Int) (d q u k w : Nat), InEra d q u k w ∧
    days + epoch = era * daysPerEra + d ∧ ofDays days =
      ⟨if 2 < monthOf (monthFromMarch w) then era * 400 + (100 * q + 4 * u + k : Nat)
        else era * 400 + (100 * q + 4 * u + k : Nat) + 1,
      monthOf (monthFromMarch w), w - (153 * monthFromMarch w + 2) / 5 + 1⟩ := by
  have hpos : (0 : Int) ≤ (days + epoch) % daysPerEra := Int.emod_nonneg _ (by decide)
  have hlt : (days + epoch) % daysPerEra < daysPerEra := Int.emod_lt_of_pos _ (by decide)
  have hd : ((days + epoch) % daysPerEra).toNat < 146097 := by
    unfold daysPerEra at hlt hpos ⊢
    omega
  obtain ⟨q, u, k, w, h⟩ := exists_inEra hd
  refine ⟨(days + epoch) / daysPerEra, _, q, u, k, w, h, ?_, ?_⟩
  · rw [Int.toNat_of_nonneg hpos]
    exact (Int.ediv_mul_add_emod _ _).symm
  · have hw : ((days + epoch) % daysPerEra).toNat - (365 * (100 * q + 4 * u + k) +
        (100 * q + 4 * u + k) / 4 - (100 * q + 4 * u + k) / 100) = w := by
      have := h.daysBeforeYear
      omega
    simp only [ofDays, h.yearOfEra_eq, hw]
    rfl

/-- The months from March to January have their lengths in every year. -/
theorem day_le_of_lt {m : Nat} (hm : m < 11) (hlo : 153 * m ≤ 5 * w + 2)
    (hhi : 5 * w + 2 < 153 * m + 153) (year : Int) :
    w - (153 * m + 2) / 5 + 1 ≤ daysInMonth year (monthOf m) := by
  interval_cases m <;> simp only [monthOf, daysInMonth, Nat.reduceLT, ↓reduceIte] <;> omega

/-- A year with a day more is a leap year in the calendar. -/
theorem InEra.isLeap (h : InEra d q u k w) (hw : w = 365) (era : Int) :
    isLeap (era * 400 + (100 * q + 4 * u + k : Nat) + 1) = true := by
  obtain ⟨rfl, hlast⟩ := h.long hw
  have hu := h.cycle
  simp only [Time.isLeap, Bool.and_eq_true, Bool.or_eq_true, decide_eq_true_eq]
  refine ⟨by omega, ?_⟩
  by_cases hcentury : u = 24
  · obtain rfl := hlast hcentury
    exact .inr (by omega)
  · exact .inl (by omega)

/-- **The date of a day is real.** -/
theorem isValid_ofDays (days : Int) : (ofDays days).isValid = true := by
  obtain ⟨era, d, q, u, k, w, h, -, heq⟩ := ofDays_eq days
  have hle := monthFromMarch_le h.day
  have hlo : 153 * monthFromMarch w ≤ 5 * w + 2 := Nat.mul_div_le _ _
  have hhi : 5 * w + 2 < 153 * monthFromMarch w + 153 := Nat.lt_mul_div_succ _ (by decide)
  rw [heq]
  generalize monthFromMarch w = m at hle hlo hhi
  have hmonth : 1 ≤ monthOf m ∧ monthOf m ≤ 12 := by
    unfold monthOf
    split <;> omega
  have hday : ∀ year, (m = 11 → year = era * 400 + (100 * q + 4 * u + k : Nat) + 1) →
      w - (153 * m + 2) / 5 + 1 ≤ daysInMonth year (monthOf m) := by
    intro year hyear
    by_cases hm : m < 11
    · exact day_le_of_lt hm hlo hhi year
    · obtain rfl : m = 11 := by omega
      have hw := h.day
      rw [hyear rfl]
      change w - (153 * 11 + 2) / 5 + 1 ≤ if Time.isLeap _ = true then 29 else 28
      split
      · omega
      · rename_i hleap
        have := mt (fun hw => h.isLeap hw era) hleap
        omega
  simp only [isValid, Bool.and_eq_true, decide_eq_true_eq]
  refine ⟨⟨hmonth, by omega⟩, hday _ fun hm => ?_⟩
  rw [hm]
  rfl

/-- **The day of a date is the day that the date was found for.** -/
theorem toDays_ofDays (days : Int) : (ofDays days).toDays = days := by
  obtain ⟨era, d, q, u, k, w, h, hdays, heq⟩ := ofDays_eq days
  have hm := monthFromMarch_le h.day
  have hbefore := daysBefore_monthFromMarch_le w
  have hd := h.daysBeforeYear
  have hyear : 100 * q + 4 * u + k < 400 := by
    have := h.century
    have := h.cycle
    have := h.year
    omega
  rw [heq, toDays, daysBefore_monthOf hm]
  generalize 100 * q + 4 * u + k = y at hd hyear
  generalize monthFromMarch w = m at hbefore
  have hmarch : (if 2 < monthOf m then
      (if 2 < monthOf m then era * 400 + (y : Int) else era * 400 + (y : Int) + 1)
      else (if 2 < monthOf m then era * 400 + (y : Int) else era * 400 + (y : Int) + 1) - 1) =
        era * 400 + (y : Int) := by
    split
    · rfl
    · omega
  simp only [hmarch]
  unfold daysPerEra at hdays ⊢
  unfold epoch at hdays ⊢
  omega

end DeviceStats.Time.Date
