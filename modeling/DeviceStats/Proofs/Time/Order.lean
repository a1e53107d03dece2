import DeviceStats.Proofs.Time.Layouts
import DeviceStats.Proofs.Time.Succession

/-!
# Proofs/Time/Order — later moments are written later

Numbers of one width are ordered as their texts (`padded_append_lt`), so a text made of such numbers
is ordered as the list of them (`Stamp.Tells.chars_lt_chars`).  A moment in whole seconds of a year
of four digits is written in this way, by its date and its time of day (`isoChars_ofSeconds`), and
the later of two has the later date or on that date the later time (`fields_lt_fields`).
-/

namespace DeviceStats.Time

/-! ## Digits -/

theorem digit_bounds {c : Char} (h : c.isDigit = true) : 48 ≤ c.toNat ∧ c.toNat ≤ 57 := by
  simpa [Char.isDigit, UInt32.le_iff_toNat_le] using h

theorem ofDigitChars_cons_zero (c : Char) (cs : List Char) : Nat.ofDigitChars 10 (c :: cs) 0 =
    10 ^ cs.length * (c.toNat - 48) + Nat.ofDigitChars 10 cs 0 := by
  rw [Nat.ofDigitChars_cons, Nat.ofDigitChars_eq_ofDigitChars_zero, Nat.mul_zero, Nat.zero_add]
  rfl

/-- **Digits of one number are ordered as the numbers are**, whatever stands behind them. -/
theorem append_lt_append {cs ds : List Char} (hlen : cs.length = ds.length)
    (hcs : ∀ c ∈ cs, c.isDigit = true) (hds : ∀ d ∈ ds, d.isDigit = true)
    (h : Nat.ofDigitChars 10 cs 0 < Nat.ofDigitChars 10 ds 0) (r s : List Char) :
    cs ++ r < ds ++ s := by
  induction cs generalizing ds with
  | nil =>
    obtain rfl := List.length_eq_zero_iff.mp hlen.symm
    exact absurd h (lt_irrefl _)
  | cons c cs ih =>
    cases ds with
    | nil => cases hlen
    | cons d ds =>
      obtain ⟨hc, hcs'⟩ := List.forall_mem_cons.mp hcs
      obtain ⟨hd, hds'⟩ := List.forall_mem_cons.mp hds
      have hlength : cs.length = ds.length := Nat.succ.inj hlen
      have hlow := Reader.ofDigitChars_lt hds'
      rw [ofDigitChars_cons_zero, ofDigitChars_cons_zero, hlength] at h
      -- a greater first digit outweighs whatever digits follow the other one
      have hle : c.toNat ≤ d.toNat := by
        by_contra hgt
        have hdigits : d.toNat - 48 + 1 ≤ c.toNat - 48 := by
          have := digit_bounds hd
          omega
        have := Nat.mul_le_mul_left (10 ^ ds.length) hdigits
        rw [Nat.mul_add] at this
        omega
      refine List.cons_lt_cons_iff.mpr ?_
      rcases Nat.lt_or_eq_of_le hle with hlt | heq
      · exact .inl hlt
      · obtain rfl : c = d := Char.toNat_inj.mp heq
        exact .inr ⟨rfl, ih hlength hcs' hds' (by omega)⟩

/-- **Numbers of one width are ordered as they are written**, and where they are the same, what
stands behind them decides. -/
theorem padded_append_lt {width m n : Nat} {r s : List Char} (hpos : 0 < width)
    (hm : m < 10 ^ width) (hn : n < 10 ^ width) (h : m < n ∨ m = n ∧ r < s) :
    padded width m ++ r < padded width n ++ s := by
  rcases h with hlt | ⟨rfl, hrest⟩
  · refine append_lt_append ?_ isDigit_of_mem_padded isDigit_of_mem_padded ?_ r s
    · rw [length_padded hpos hm, length_padded hpos hn]
    · rwa [ofDigitChars_padded, ofDigitChars_padded]
  · exact List.append_left_lt hrest

/-- The same with a separator behind the numbers. -/
theorem padded_cons_lt {width m n : Nat} {c : Char} {r s : List Char} (hpos : 0 < width)
    (hm : m < 10 ^ width) (hn : n < 10 ^ width) (h : m < n ∨ m = n ∧ r < s) :
    padded width m ++ c :: r < padded width n ++ c :: s :=
  padded_append_lt hpos hm hn
    (h.imp_right (And.imp_right fun hrest => List.cons_lt_cons_iff.mpr (.inr ⟨rfl, hrest⟩)))

/-! ## Whole seconds -/

/-- What calendar and clock show at a whole second. -/
structure Stamp where
  year : Nat
  month : Nat
  day : Nat
  hour : Nat
  minute : Nat
  second : Nat

namespace Stamp

variable {s t : Stamp} {n : Int}

def date (s : Stamp) : Date := ⟨s.year, s.month, s.day⟩

/-- `YYYY-MM-DDTHH:MM:SS.000Z`. -/
def chars (s : Stamp) : List Char :=
  padded 4 s.year ++ '-' :: (padded 2 s.month ++ '-' :: (padded 2 s.day ++ 'T' ::
    (padded 2 s.hour ++ ':' :: (padded 2 s.minute ++ ':' :: (padded 2 s.second ++
      ['.', '0', '0', '0', 'Z'])))))

/-- **A stamp tells so many seconds from 1970**: its date is real and is counted out on the calendar
from the first of January 1970, and its time of day is one that a clock shows. -/
structure Tells (s : Stamp) (n : Int) : Prop where
  date : s.date.isValid = true
  hour : s.hour < 24
  minute : s.minute < 60
  second : s.second < 60
  seconds : ∃ days, Date.Counted Date.firstOf1970 days s.date ∧
    n = days * 86400 + (s.hour * 3600 + s.minute * 60 + s.second : Nat)

/-- The numbers of a stamp, from the year to the second. -/
def fields (s : Stamp) : List Nat := [s.year, s.month, s.day, s.hour, s.minute, s.second]

/-- The stamp of a number of seconds, which has to lie in a year that is not before year 0. -/
def ofSeconds (n : Int) : Stamp :=
  let d := Date.ofDays (n / 86400)
  let time := (n % 86400).toNat
  ⟨d.year.toNat, d.month, d.day, time / 3600, time / 60 % 60, time % 60⟩

theorem date_ofSeconds (h : 0 ≤ (Date.ofDays (n / 86400)).year) :
    (ofSeconds n).date = Date.ofDays (n / 86400) := by
  have hyear := Int.toNat_of_nonneg h
  simp only [date, ofSeconds, hyear]

theorem tells_ofSeconds (h : 0 ≤ (Date.ofDays (n / 86400)).year) : (ofSeconds n).Tells n := by
  have hday : 0 ≤ n % 86400 ∧ n % 86400 < 86400 := by omega
  refine ⟨?_, ?_, ?_, ?_, n / 86400, ?_, ?_⟩
  · rw [date_ofSeconds h]
    exact Date.isValid_ofDays _
  · change (n % 86400).toNat / 3600 < 24
    omega
  · exact Nat.mod_lt _ (by decide)
  · exact Nat.mod_lt _ (by decide)
  · rw [date_ofSeconds h]
    exact Date.counted_ofDays _
  · simp only [ofSeconds]
    omega

/-- **A moment in whole seconds is written as its stamp.** -/
theorem isoChars_ofSeconds (hlo : 0 ≤ (Date.ofDays (n / 86400)).year)
    (hhi : (Date.ofDays (n / 86400)).year ≤ 9999) :
    Moment.isoChars ⟨n, 0⟩ = (ofSeconds n).chars := by
  have hmillis : padded 3 0 = ['0', '0', '0'] := by decide
  rw [Moment.isoChars_eq (m := ⟨n, 0⟩) hlo hhi]
  simp only [Nat.zero_mod, Nat.zero_div, Nat.add_zero, hmillis]
  rfl

/-! ## The order of stamps -/

theorem Tells.bounds (h : s.Tells n) :
    s.month < 100 ∧ s.day < 100 ∧ s.hour < 100 ∧ s.minute < 100 ∧ s.second < 100 := by
  obtain ⟨hmonth, hday⟩ := Date.bounds_of_isValid h.date
  exact ⟨Nat.lt_of_le_of_lt hmonth (by decide), Nat.lt_of_le_of_lt hday (by decide),
    h.hour.trans (by decide), h.minute.trans (by decide), h.second.trans (by decide)⟩

/-- A stamp of a year of four digits has its full width. -/
theorem Tells.length_chars (h : s.Tells n) (hyear : s.year < 10000) : s.chars.length = 24 := by
  obtain ⟨hmonth, hday, hhour, hminute, hsecond⟩ := h.bounds
  have htwo {k : Nat} (hk : k < 100) : (padded 2 k).length = 2 := length_padded (by decide) hk
  have hfour : (padded 4 s.year).length = 4 := length_padded (by decide) hyear
  simp only [chars, List.length_append, List.length_cons, List.length_nil, hfour, htwo hmonth,
    htwo hday, htwo hhour, htwo hminute, htwo hsecond]

/-- **Stamps are ordered as they are written.** -/
theorem Tells.chars_lt_chars {m : Int} (hs : s.Tells n) (ht : t.Tells m) (hyear : s.year < 10000)
    (hyear' : t.year < 10000) (h : s.fields < t.fields) : s.chars < t.chars := by
  obtain ⟨hmonth, hday, hhour, hminute, hsecond⟩ := hs.bounds
  obtain ⟨hmonth', hday', hhour', hminute', hsecond'⟩ := ht.bounds
  simp only [fields, List.cons_lt_cons_iff] at h
  refine padded_cons_lt (by decide) hyear hyear' (h.imp_right (And.imp_right fun h => ?_))
  refine padded_cons_lt (by decide) hmonth hmonth' (h.imp_right (And.imp_right fun h => ?_))
  refine padded_cons_lt (by decide) hday hday' (h.imp_right (And.imp_right fun h => ?_))
  refine padded_cons_lt (by decide) hhour hhour' (h.imp_right (And.imp_right fun h => ?_))
  refine padded_cons_lt (by decide) hminute hminute' (h.imp_right (And.imp_right fun h => ?_))
  refine padded_append_lt (by decide) hsecond hsecond' (.inl ?_)
  exact h.resolve_right fun hnil => List.not_lt_nil _ hnil.2

/-- **The later second has the later stamp**: the later date, or on one date the later time. -/
theorem fields_lt_fields {m : Int} (h : n < m) (hyear : 0 ≤ (Date.ofDays (n / 86400)).year)
    (hyear' : 0 ≤ (Date.ofDays (m / 86400)).year) :
    (ofSeconds n).fields < (ofSeconds m).fields := by
  simp only [fields, ofSeconds, List.cons_lt_cons_iff]
  rcases Int.lt_or_eq_of_le (Int.ediv_le_ediv (by decide : (0 : Int) < 86400) h.le) with hlt | heq
  · have hdate := Date.before_ofDays hlt
    unfold Date.Before at hdate
    omega
  · rw [heq]
    omega

end Stamp

end DeviceStats.Time
