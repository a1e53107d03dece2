import DeviceStats.Proofs.Json.Number
import DeviceStats.Proofs.Time.Calendar
import DeviceStats.Time.Reader
import Mathlib.Data.List.TakeWhile

/-!
# Proofs/Time/Written — written moments are read

A written moment is an internet date: each number stands in its full width, so it is read without
regard to what stands behind it (`number_padded`), and the parts are those of the moment
(`internet_isoChars`).  The day is found again from the date, so a moment on a clock comes back in
the milliseconds that it was written with (`ofChars?_isoChars`).  Years from 0 to 9999 only are
written in this way; `Proofs/Time/Layouts` is about the others.
-/

namespace DeviceStats.Time

open Json.Number (isDigit_of_mem_toDigits isDigit_of_mem_replicate)

/-! ## Padded numbers -/

/-- A padded number is its digits behind zeros. -/
theorem padded_eq (width n : Nat) : padded width n =
    List.replicate (width - (Nat.toDigits 10 n).length) '0' ++ Nat.toDigits 10 n := by
  simp [padded]

theorem isDigit_of_mem_padded {width n : Nat} : ∀ c ∈ padded width n, c.isDigit = true := by
  rw [padded_eq]
  exact List.forall_mem_append.mpr ⟨isDigit_of_mem_replicate _, isDigit_of_mem_toDigits⟩

/-- A number that fits its width takes up just that. -/
theorem length_padded {width n : Nat} (hpos : 0 < width) (h : n < 10 ^ width) :
    (padded width n).length = width := by
  have hle : (Nat.toDigits 10 n).length ≤ width :=
    (Nat.length_toDigits_le_iff (by decide) hpos).mpr h
  simp [padded_eq, hle]

/-- The zeros before a number do not change it. -/
theorem ofDigitChars_padded (width n : Nat) : Nat.ofDigitChars 10 (padded width n) 0 = n := by
  simp [padded_eq, Nat.ofDigitChars_append, Nat.ofDigitChars_replicate_zero,
    Nat.ofDigitChars_ten_toDigits]

namespace Reader

variable {α β : Type}

/-- The digits that a reader of numbers takes. -/
def digits (most : Option Nat) (cs : List Char) : List Char :=
  (match most with
    | some n => cs.take n
    | none => cs).takeWhile Char.isDigit

/-- A reader of numbers takes all digits up to a limit, and fails if they are too few. -/
theorem number_eq (least : Nat) (most : Option Nat) (cs : List Char) : number least most cs =
    if (digits most cs).length < least then none
    else some (Nat.ofDigitChars 10 (digits most cs) 0, cs.drop (digits most cs).length) := by
  simp only [number, Nat.ofDigitChars_eq_foldl, Nat.mul_comm]
  rfl

theorem isDigit_of_mem_digits {most : Option Nat} {cs : List Char} :
    ∀ c ∈ digits most cs, c.isDigit = true :=
  fun _ hc => List.mem_takeWhile_imp hc

theorem length_digits_le (n : Nat) (cs : List Char) : (digits (some n) cs).length ≤ n :=
  (List.takeWhile_sublist _).length_le.trans (List.length_take_le n cs)

/-- A number is read from the digits that a text starts with. -/
theorem number_eq_some {least n : Nat} {most : Option Nat} {cs rest : List Char}
    (h : number least most cs = some (n, rest)) :
    n = Nat.ofDigitChars 10 (digits most cs) 0 ∧ cs = digits most cs ++ rest := by
  rw [number_eq] at h
  split at h
  · cases h
  · cases h
    have hprefix : digits most cs <+: cs := by
      cases most with
      | none => exact List.takeWhile_prefix _
      | some n => exact (List.takeWhile_prefix _).trans (List.take_prefix n cs)
    exact ⟨rfl, (List.prefix_iff_eq_append.mp hprefix).symm⟩

/-- **A number of full width is read**, whatever stands behind it. -/
theorem number_padded {width n : Nat} (hpos : 0 < width) (h : n < 10 ^ width) (rest : List Char) :
    number width (some width) (padded width n ++ rest) = some (n, rest) := by
  have hlength := length_padded hpos h
  have htake : digits (some width) (padded width n ++ rest) = padded width n := by
    rw [digits, List.take_left' hlength]
    exact List.takeWhile_eq_self_iff.mpr isDigit_of_mem_padded
  rw [number_eq, htake, hlength, if_neg (lt_irrefl _), ofDigitChars_padded,
    List.drop_left' hlength]

/-- What one reader leaves the next one reads. -/
theorem bind_apply (r : Reader α) (f : α → Reader β) (cs : List Char) :
    (r >>= f) cs = (r cs).bind fun p => f p.1 p.2 := rfl

theorem bind_of_eq {r : Reader α} {f : α → Reader β} {cs rest : List Char} {a : α}
    (h : r cs = some (a, rest)) : (r >>= f) cs = f a rest := by
  rw [bind_apply, h, Option.bind_some]

theorem char_cons (c : Char) (rest : List Char) : char c (c :: rest) = some ((), rest) := by
  simp [char]

theorem oneOf_cons {choices : List Char} {c : Char} (h : choices.contains c = true)
    (rest : List Char) : oneOf choices (c :: rest) = some ((), rest) := by
  simp only [oneOf, h, if_true]

theorem within_of_le {lo hi n : Nat} (hlo : lo ≤ n) (hhi : n ≤ hi) (rest : List Char) :
    within lo hi n rest = some (n, rest) := by
  simp only [within, hlo, hhi, decide_true, Bool.and_self, if_true]
  rfl

theorem offset_universal : offset ['Z'] = some (0, []) := rfl

/-- A fraction counts by its place: behind each digit that is missing up to the ninth stands a
zero. -/
theorem fraction_point (cs : List Char) : fraction ('.' :: cs) =
    (number 1 (some 9) cs).bind fun p =>
      some (p.1 * 10 ^ (9 - (cs.length - p.2.length)), p.2.dropWhile Char.isDigit) := by
  unfold fraction
  rw [bind_of_eq (rfl : (get : Reader _) ('.' :: cs) = some ('.' :: cs, '.' :: cs))]
  simp only [bind_apply]
  rfl

/-- Where no point stands there is no fraction. -/
theorem fraction_eq (cs : List Char) : (∃ tail, cs = '.' :: tail) ∨ fraction cs = some (0, cs) := by
  unfold fraction
  rw [bind_of_eq (rfl : (get : Reader _) cs = some (cs, cs))]
  split
  · exact .inl ⟨_, rfl⟩
  · exact .inr rfl

/-- A fraction is read from the digits after a point, or is nothing. -/
theorem fraction_eq_some {cs rest : List Char} {n : Nat} (h : fraction cs = some (n, rest)) :
    (∃ tail k mid, cs = '.' :: tail ∧ number 1 (some 9) tail = some (k, mid) ∧
      n = k * 10 ^ (9 - (tail.length - mid.length)) ∧ rest = mid.dropWhile Char.isDigit) ∨
    n = 0 ∧ rest = cs := by
  rcases fraction_eq cs with ⟨tail, rfl⟩ | hnone
  · rw [fraction_point, Option.bind_eq_some_iff] at h
    obtain ⟨⟨k, mid⟩, hk, h⟩ := h
    obtain ⟨rfl, rfl⟩ := Prod.mk.inj (Option.some.inj h)
    exact .inl ⟨tail, k, mid, rfl, hk, rfl, rfl⟩
  · obtain ⟨rfl, rfl⟩ := Prod.mk.inj (Option.some.inj (hnone.symm.trans h))
    exact .inr ⟨rfl, rfl⟩

/-- Three digits after a point are milliseconds. -/
theorem fraction_milliseconds {n : Nat} (h : n < 1000) :
    fraction ('.' :: (padded 3 n ++ ['Z'])) = some (n * 1000000, ['Z']) := by
  have hlength := length_padded (by decide : 0 < 3) h
  have htake : digits (some 9) (padded 3 n ++ ['Z']) = padded 3 n := by
    have hshort : (padded 3 n ++ ['Z']).take 9 = padded 3 n ++ ['Z'] :=
      List.take_of_length_le (by rw [List.length_append, hlength]; decide)
    rw [digits, hshort]
    exact (Json.Number.takeWhile_digits isDigit_of_mem_padded (by rintro _ ⟨⟩; rfl)).1
  have hnumber : number 1 (some 9) (padded 3 n ++ ['Z']) = some (n, ['Z']) := by
    rw [number_eq, htake, hlength, if_neg (by decide), ofDigitChars_padded,
      List.drop_left' hlength]
  rw [fraction_point, hnumber, Option.bind_some]
  simp [hlength]

/-- **The internet date that is written is read**, part by part. -/
theorem internet_written {year month day hour minute second millis : Nat} (hyear : year < 10000)
    (hmonth : month < 100) (hday : day < 100) (hhour : hour ≤ 23) (hminute : minute ≤ 59)
    (hsecond : second ≤ 60) (hmillis : millis < 1000) :
    internet (padded 4 year ++ '-' :: (padded 2 month ++ '-' :: (padded 2 day ++ 'T' ::
      (padded 2 hour ++ ':' :: (padded 2 minute ++ ':' :: (padded 2 second ++ '.' ::
        (padded 3 millis ++ ['Z']))))))) =
      some (({ year := some (year : Int), month := some month, day := some day, hour := some hour,
               minute := some minute, second, nanos := millis * 1000000 } : Parts), []) := by
  unfold internet
  rw [bind_of_eq (number_padded (by decide) hyear _), bind_of_eq (char_cons _ _),
    bind_of_eq (number_padded (by decide) hmonth _), bind_of_eq (char_cons _ _),
    bind_of_eq (number_padded (by decide) hday _), bind_of_eq (oneOf_cons rfl _),
    bind_of_eq (number_padded (by decide) (by omega) _), bind_of_eq (within_of_le (by omega) hhour _),
    bind_of_eq (char_cons _ _),
    bind_of_eq (number_padded (by decide) (by omega) _),
    bind_of_eq (within_of_le (by omega) hminute _),
    bind_of_eq (char_cons _ _),
    bind_of_eq (number_padded (by decide) (by omega) _),
    bind_of_eq (within_of_le (by omega) hsecond _), bind_of_eq (fraction_milliseconds hmillis),
    bind_of_eq offset_universal]
  rfl

end Reader

/-! ## Moments read back -/

namespace Moment

/-- What a clock can show: only the last second of a minute may be a leap second. -/
structure OnClock (m : Moment) : Prop where
  nanos_lt : m.nanos < 2000000000
  leap : 1000000000 ≤ m.nanos → m.seconds % 60 = 59

/-- A moment in whole milliseconds, as it is written. -/
def wholeMillis (m : Moment) : Moment := { m with nanos := m.nanos / 1000000 * 1000000 }

/-- Writing does not look below the millisecond. -/
theorem isoChars_wholeMillis (m : Moment) : m.wholeMillis.isoChars = m.isoChars := by
  have hleap : m.nanos / 1000000 * 1000000 / 1000000000 = m.nanos / 1000000000 := by omega
  have hmillis : m.nanos / 1000000 * 1000000 % 1000000000 / 1000000 =
      m.nanos % 1000000000 / 1000000 := by omega
  simp only [isoChars, wholeMillis, secondOfDay, date, hleap, hmillis]

theorem secondOfDay_lt (m : Moment) : m.secondOfDay < 86400 := by
  have := Int.emod_lt_of_pos m.seconds (by decide : (0 : Int) < secondsPerDay)
  unfold secondOfDay secondsPerDay at *
  omega

/-- The written second is at most 60, which it is in a leap second only. -/
theorem OnClock.second_le {m : Moment} (h : m.OnClock) :
    m.secondOfDay % 60 + m.nanos / 1000000000 ≤ 60 := by
  have := h.nanos_lt
  omega

/-- The date and the time of day that are written are those of the moment in milliseconds. -/
theorem OnClock.ofClock_eq {m : Moment} (h : m.OnClock) :
    ofClock m.date (m.secondOfDay / 3600) (m.secondOfDay / 60 % 60)
      (m.secondOfDay % 60 + m.nanos / 1000000000) (m.nanos % 1000000000 / 1000000 * 1000000) 0 =
      m.wholeMillis := by
  obtain ⟨hlt, hleap⟩ := h
  have hpos : 0 ≤ m.seconds % 86400 := Int.emod_nonneg _ (by decide)
  have hsecond : (m.secondOfDay : Int) = m.seconds % 86400 := Int.toNat_of_nonneg hpos
  have hdays : m.date.toDays = m.seconds / 86400 := Date.toDays_ofDays _
  unfold ofClock wholeMillis
  rw [hdays]
  unfold secondsPerDay
  generalize m.secondOfDay = s at hsecond
  split
  · simp only [mk.injEq]
    omega
  · simp only [mk.injEq]
    omega

/-- A moment as it is written, between the dashes and colons. -/
theorem isoChars_eq {m : Moment} (hlo : 0 ≤ m.date.year) (hhi : m.date.year ≤ 9999) :
    m.isoChars = padded 4 m.date.year.toNat ++ '-' :: (padded 2 m.date.month ++
      '-' :: (padded 2 m.date.day ++ 'T' :: (padded 2 (m.secondOfDay / 3600) ++
      ':' :: (padded 2 (m.secondOfDay / 60 % 60) ++
      ':' :: (padded 2 (m.secondOfDay % 60 + m.nanos / 1000000000) ++
      '.' :: (padded 3 (m.nanos % 1000000000 / 1000000) ++ ['Z'])))))) := by
  simp only [isoChars, yearChars, hlo, hhi, and_self, if_true, List.append_assoc, List.cons_append]

end Moment

theorem daysInMonth_le (year : Int) (month : Nat) : daysInMonth year month ≤ 31 := by
  unfold daysInMonth
  split <;> (try split) <;> decide

/-- A date on the calendar fits two digits for its month and two for its day. -/
theorem Date.bounds_of_isValid {d : Date} (h : d.isValid = true) : d.month ≤ 12 ∧ d.day ≤ 31 := by
  simp only [Date.isValid, Bool.and_eq_true, decide_eq_true_eq] at h
  obtain ⟨⟨⟨-, hmonth⟩, -⟩, hday⟩ := h
  exact ⟨hmonth, hday.trans (daysInMonth_le _ _)⟩

/-- Parts with a date, an hour and a minute make a moment, if it falls into a year that is known. -/
theorem Parts.moment?_eq {p : Parts} {d : Date} {hour minute : Nat} (hd : p.date? = some d)
    (hhour : p.hour = some hour) (hminute : p.minute = some minute)
    (hyear : isYear (Moment.ofClock d hour minute p.second p.nanos p.ahead).date.year = true) :
    p.moment? = some (Moment.ofClock d hour minute p.second p.nanos p.ahead) := by
  simp [moment?, hd, hhour, hminute, hyear]

namespace Moment

/-- The parts of a written moment. -/
def parts (m : Moment) : Parts where
  year := some m.date.year
  month := some m.date.month
  day := some m.date.day
  hour := some (m.secondOfDay / 3600)
  minute := some (m.secondOfDay / 60 % 60)
  second := m.secondOfDay % 60 + m.nanos / 1000000000
  nanos := m.nanos % 1000000000 / 1000000 * 1000000

theorem isValid_date (m : Moment) : m.date.isValid = true := Date.isValid_ofDays _

/-- A written moment is an internet date, with nothing left over. -/
theorem OnClock.internet_isoChars {m : Moment} (h : m.OnClock) (hlo : 0 ≤ m.date.year)
    (hhi : m.date.year ≤ 9999) : Reader.internet m.isoChars = some (m.parts, []) := by
  obtain ⟨hmonth, hday⟩ := Date.bounds_of_isValid m.isValid_date
  have hs := m.secondOfDay_lt
  have hyear : (m.date.year.toNat : Int) = m.date.year := Int.toNat_of_nonneg hlo
  rw [isoChars_eq hlo hhi, Reader.internet_written (by omega) (by omega) (by omega) (by omega)
    (by omega) h.second_le (by omega), hyear]
  rfl

/-- The written date is found again. -/
theorem date?_parts {m : Moment} (h : Parts.isYear m.date.year = true) :
    m.parts.date? = some m.date := by
  simp [Parts.date?, parts, h, m.isValid_date]

/-- The parts of a written moment make the moment, in whole milliseconds. -/
theorem OnClock.moment?_parts {m : Moment} (h : m.OnClock)
    (hyear : Parts.isYear m.date.year = true) : m.parts.moment? = some m.wholeMillis := by
  have hclock : ofClock m.date (m.secondOfDay / 3600) (m.secondOfDay / 60 % 60) m.parts.second
      m.parts.nanos m.parts.ahead = m.wholeMillis := h.ofClock_eq
  rw [Parts.moment?_eq (date?_parts hyear) rfl rfl (by rwa [hclock]), hclock]

/-- **A written moment of a year from 0 to 9999 is read back**, in whole milliseconds. -/
theorem OnClock.ofChars?_isoChars {m : Moment} (h : m.OnClock) (hlo : 0 ≤ m.date.year)
    (hhi : m.date.year ≤ 9999) : ofChars? m.isoChars = some m.wholeMillis := by
  have hyear : Parts.isYear m.date.year = true := by
    simp only [Parts.isYear, Bool.and_eq_true, decide_eq_true_eq]
    omega
  have hread : (Reader.whole Reader.internet m.isoChars).bind Parts.moment? =
      some m.wholeMillis := by
    simp only [Reader.whole, h.internet_isoChars hlo hhi, Option.bind_some, h.moment?_parts hyear]
  simp only [ofChars?, Reader.layouts, List.cons_append, List.findSome?_cons, hread]

end Moment

end DeviceStats.Time
