import DeviceStats.Proofs.Time.Calendar
import Mathlib.Order.Monotone.Basic
import Mathlib.Order.SuccPred.Archimedean

/-!
# Proofs/Time/Succession — days follow each other

Counting months from the year 0, each begins when the days of the one before it are over
(`monthStart_succ`).  So days are counted in the order of dates (`toDays_lt_toDays`), a real date is
the one found for its day (`ofDays_toDays`), and the date of the next day is the next date
(`ofDays_succ`): the date found for a number of days is the one that is counted out on the calendar
from the first of January 1970 (`counted_iff`).
-/

namespace DeviceStats.Time.Date

/-! ## Years -/

/-- The days from the first of March of year 0 to that of another year. -/
def daysBeforeYear (y : Int) : Int :=
  y / 400 * daysPerEra + (y % 400 * 365 + y % 400 / 4 - y % 400 / 100)

/-- From March to March there is the leap day of the second year, if it has one. -/
theorem daysBeforeYear_succ (y : Int) :
    daysBeforeYear (y + 1) = daysBeforeYear y + if isLeap (y + 1) = true then 366 else 365 := by
  have hleap : isLeap (y + 1) = true ↔
      (y + 1) % 4 = 0 ∧ ((y + 1) % 100 ≠ 0 ∨ (y + 1) % 400 = 0) := by
    simp [isLeap]
  unfold daysBeforeYear daysPerEra
  by_cases h : isLeap (y + 1) = true
  · have := hleap.mp h
    rw [if_pos h]
    omega
  · have := mt hleap.mpr h
    rw [if_neg h]
    omega

/-- Days are counted from March. -/
theorem toDays_eq (d : Date) : d.toDays =
    daysBeforeYear (if 2 < d.month then d.year else d.year - 1) + (daysBefore d.month + d.day - 1) -
      epoch := by
  simp only [toDays, daysBeforeYear, Int.add_assoc]

/-- A day is counted from the first of its month. -/
theorem toDays_day (year : Int) (month day : Nat) :
    toDays ⟨year, month, day⟩ = toDays ⟨year, month, 1⟩ + day - 1 := by
  rw [toDays_eq, toDays_eq]
  push_cast
  omega

/-! ## Months -/

/-- **A month begins when the one before it is over.** -/
theorem toDays_month {month : Nat} (hlo : 1 ≤ month) (hhi : month < 12) (year : Int) :
    toDays ⟨year, month + 1, 1⟩ = toDays ⟨year, month, 1⟩ + daysInMonth year month := by
  have hmarch := daysBeforeYear_succ (year - 1)
  rw [Int.sub_add_cancel] at hmarch
  rw [toDays_eq, toDays_eq]
  interval_cases month
  -- only the step from February to March goes from one counted year to the next
  case «2» =>
    simp only [daysInMonth, daysBefore, Nat.reduceLT, Nat.reduceAdd, ↓reduceIte, hmarch]
    split <;> omega
  all_goals
    simp only [daysInMonth, daysBefore, Nat.reduceLT, Nat.reduceAdd, ↓reduceIte]
    omega

/-- A year begins when December is over. -/
theorem toDays_year (year : Int) :
    toDays ⟨year + 1, 1, 1⟩ = toDays ⟨year, 12, 1⟩ + daysInMonth year 12 := by
  rw [toDays_eq, toDays_eq]
  simp only [daysInMonth, daysBefore, Nat.reduceLT, ↓reduceIte, Int.add_sub_cancel]
  omega

/-- The first day of a month, the months counted from January of year 0. -/
def monthStart (k : Int) : Int := toDays ⟨k / 12, (k % 12).toNat + 1, 1⟩

/-- How many days the month has. -/
def monthLength (k : Int) : Nat := daysInMonth (k / 12) ((k % 12).toNat + 1)

theorem daysInMonth_pos (year : Int) (month : Nat) : 0 < daysInMonth year month := by
  unfold daysInMonth
  split <;> (try split) <;> decide

theorem monthStart_succ (k : Int) : monthStart (k + 1) = monthStart k + monthLength k := by
  unfold monthStart monthLength
  by_cases hk : k % 12 = 11
  · have hyear : (k + 1) / 12 = k / 12 + 1 := by omega
    have hmonth : ((k + 1) % 12).toNat = 0 := by omega
    rw [hyear, hmonth, hk]
    exact toDays_year (k / 12)
  · have hyear : (k + 1) / 12 = k / 12 := by omega
    have hmonth : ((k + 1) % 12).toNat = (k % 12).toNat + 1 := by omega
    rw [hyear, hmonth]
    exact toDays_month (by omega) (by omega) (k / 12)

/-- **Months begin in their order**: each after the days of all before it. -/
theorem monthStart_add_le {j k : Int} (h : j < k) : monthStart j + monthLength j ≤ monthStart k := by
  rw [← monthStart_succ]
  induction k, Int.add_one_le_of_lt h using Int.leInduction with
  | base => exact Int.le_refl _
  | succ k hle ih =>
    rw [monthStart_succ k]
    omega

/-! ## Days -/

variable {d e : Date}

/-- What a real date is, spelled out. -/
theorem isValid_iff : d.isValid = true ↔
    1 ≤ d.month ∧ d.month ≤ 12 ∧ 1 ≤ d.day ∧ d.day ≤ daysInMonth d.year d.month := by
  simp only [isValid, Bool.and_eq_true, decide_eq_true_eq, and_assoc]

/-- The month of a date, counted from January of year 0. -/
def monthIndex (d : Date) : Int := 12 * d.year + (d.month - 1 : Nat)

theorem year_month_eq (h : d.isValid = true) :
    d.monthIndex / 12 = d.year ∧ (d.monthIndex % 12).toNat + 1 = d.month := by
  obtain ⟨hlo, hhi, -⟩ := isValid_iff.mp h
  unfold monthIndex
  omega

theorem toDays_eq_monthStart (h : d.isValid = true) :
    d.toDays = monthStart d.monthIndex + d.day - 1 := by
  obtain ⟨hyear, hmonth⟩ := year_month_eq h
  rw [monthStart, hyear, hmonth]
  exact toDays_day d.year d.month d.day

theorem day_le_monthLength (h : d.isValid = true) : d.day ≤ monthLength d.monthIndex := by
  obtain ⟨hyear, hmonth⟩ := year_month_eq h
  rw [monthLength, hyear, hmonth]
  exact (isValid_iff.mp h).2.2.2

/-- Whether a date comes before another on the calendar. -/
def Before (d e : Date) : Prop :=
  d.year < e.year ∨ d.year = e.year ∧ (d.month < e.month ∨ d.month = e.month ∧ d.day < e.day)

theorem before_trichotomy (d e : Date) : Before d e ∨ d = e ∨ Before e d := by
  obtain ⟨y, m, a⟩ := d
  obtain ⟨z, n, b⟩ := e
  simp only [Before, mk.injEq]
  omega

/-- **Days are counted in the order of dates.** -/
theorem toDays_lt_toDays (hd : d.isValid = true) (he : e.isValid = true) (h : Before d e) :
    d.toDays < e.toDays := by
  have hday := day_le_monthLength hd
  obtain ⟨hlo, hhi, -⟩ := isValid_iff.mp hd
  obtain ⟨hlo', hhi', hpos, -⟩ := isValid_iff.mp he
  have hindex : d.monthIndex < e.monthIndex ∨ d.monthIndex = e.monthIndex ∧ d.day < e.day := by
    unfold Before at h
    unfold monthIndex
    omega
  rw [toDays_eq_monthStart hd, toDays_eq_monthStart he]
  rcases hindex with hlt | ⟨heq, hlt⟩
  · have hnext := monthStart_add_le hlt
    omega
  · rw [heq]
    omega

/-- No two real dates are the same day. -/
theorem eq_of_toDays_eq (hd : d.isValid = true) (he : e.isValid = true)
    (h : d.toDays = e.toDays) : d = e := by
  rcases before_trichotomy d e with hlt | heq | hlt
  · exact absurd (toDays_lt_toDays hd he hlt) (by omega)
  · exact heq
  · exact absurd (toDays_lt_toDays he hd hlt) (by omega)

/-- **A real date is the one that is found for its day.** -/
theorem ofDays_toDays (h : d.isValid = true) : ofDays d.toDays = d :=
  eq_of_toDays_eq (isValid_ofDays _) h (toDays_ofDays _)

theorem before_ofDays {m n : Int} (h : m < n) : Before (ofDays m) (ofDays n) := by
  have hm := toDays_ofDays m
  have hn := toDays_ofDays n
  rcases before_trichotomy (ofDays m) (ofDays n) with hlt | heq | hlt
  · exact hlt
  · rw [heq] at hm
    omega
  · have := toDays_lt_toDays (isValid_ofDays n) (isValid_ofDays m) hlt
    omega

/-! ## The next date -/

/-- The date after a date: the next day of the month, else the first of the next month, else the
first of the next year. -/
def next (d : Date) : Date :=
  if d.day < daysInMonth d.year d.month then { d with day := d.day + 1 }
  else if d.month < 12 then ⟨d.year, d.month + 1, 1⟩
  else ⟨d.year + 1, 1, 1⟩

theorem isValid_next (h : d.isValid = true) : d.next.isValid = true := by
  obtain ⟨hlo, hhi, hpos, -⟩ := isValid_iff.mp h
  unfold next
  split
  · exact isValid_iff.mpr ⟨hlo, hhi, by simp, by assumption⟩
  · split
    · exact isValid_iff.mpr ⟨by simp, by assumption, le_rfl, daysInMonth_pos _ _⟩
    · exact isValid_iff.mpr ⟨le_rfl, by simp, le_rfl, daysInMonth_pos _ _⟩

/-- **The next date is the next day.** -/
theorem toDays_next (h : d.isValid = true) : d.next.toDays = d.toDays + 1 := by
  obtain ⟨year, month, day⟩ := d
  obtain ⟨hlo, hhi, hpos, hday⟩ := isValid_iff.mp h
  have hfirst := toDays_day year month day
  dsimp only at hlo hhi hpos hday
  by_cases hin : day < daysInMonth year month
  · have hnext : next ⟨year, month, day⟩ = ⟨year, month, day + 1⟩ := if_pos hin
    have := toDays_day year month (day + 1)
    push_cast at this
    rw [hnext]
    omega
  · by_cases hdecember : month < 12
    · have hnext : next ⟨year, month, day⟩ = ⟨year, month + 1, 1⟩ :=
        (if_neg hin).trans (if_pos hdecember)
      rw [hnext, toDays_month hlo hdecember]
      omega
    · have hnext : next ⟨year, month, day⟩ = ⟨year + 1, 1, 1⟩ :=
        (if_neg hin).trans (if_neg hdecember)
      obtain rfl : month = 12 := by omega
      rw [hnext, toDays_year]
      omega

theorem ofDays_succ (n : Int) : ofDays (n + 1) = (ofDays n).next := by
  have h := isValid_ofDays n
  refine eq_of_toDays_eq (isValid_ofDays _) (isValid_next h) ?_
  rw [toDays_next h, toDays_ofDays, toDays_ofDays]

/-- The date so many days after a date, counted out on the calendar; backwards for a negative
number. -/
inductive Counted (start : Date) : Int → Date → Prop
  | zero : Counted start 0 start
  | forth {n : Int} {d : Date} (h : Counted start n d) : Counted start (n + 1) d.next
  | back {n : Int} {d : Date} (hd : d.isValid = true) (h : Counted start (n + 1) d.next) :
    Counted start n d

/-- The first of January 1970. -/
def firstOf1970 : Date := ⟨1970, 1, 1⟩

theorem counted_ofDays (n : Int) : Counted firstOf1970 n (ofDays n) := by
  induction n using Int.induction_on with
  | zero => exact .zero
  | succ n ih =>
    rw [ofDays_succ]
    exact .forth ih
  | pred n ih =>
    refine .back (isValid_ofDays _) ?_
    rwa [← ofDays_succ, Int.sub_add_cancel]

/-- **The date found for a number of days is the one that is counted out.** -/
theorem counted_iff {n : Int} : Counted firstOf1970 n d ↔ d = ofDays n := by
  refine ⟨fun h => ?_, fun h => h ▸ counted_ofDays n⟩
  -- counting keeps to real dates, of which there is one for each day
  suffices hd : d.isValid = true ∧ d.toDays = n from hd.2 ▸ (ofDays_toDays hd.1).symm
  induction h with
  | zero => decide
  | forth _ ih => exact ⟨isValid_next ih.1, (toDays_next ih.1).trans (by rw [ih.2])⟩
  | back hd _ ih =>
    have := toDays_next hd
    exact ⟨hd, by omega⟩

end DeviceStats.Time.Date
