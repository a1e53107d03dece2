import DeviceStats.Proofs.Step.Timestamps
import DeviceStats.Proofs.Time.Order

/-!
# Proofs/Step/Epoch — seconds are written exactly and in order

Seconds from 1970 that have at most ten digits lie in the years 1653 to 2286 (`year_bounds`), so the
text they are written as is the stamp that tells them (`iso?_int`).  Such stamps have one width and
are ordered as the seconds are, and like every written moment they are read as they are written
(`iso?_seconds`).
-/

namespace DeviceStats.Timestamps

open Json (Value)
open Time (Date Moment Stamp)

variable {n m : Int}

/-- The year in which so many seconds from 1970 end. -/
theorem year_bounds (h : n.natAbs ≤ 9999999999) :
    1653 ≤ (Date.ofDays (n / 86400)).year ∧ (Date.ofDays (n / 86400)).year ≤ 2286 := by
  have hmono {a b : Int} (hab : a < b) : (Date.ofDays a).year ≤ (Date.ofDays b).year := by
    have hbefore := Date.before_ofDays hab
    unfold Date.Before at hbefore
    omega
  have hfirst : (Date.ofDays (-115742)).year = 1653 := by decide
  have hlast : (Date.ofDays 115741).year = 2286 := by decide
  have hlo := hmono (by omega : -115742 < n / 86400)
  have hhi := hmono (by omega : n / 86400 < 115741)
  omega

theorem moment?_int (h : n.natAbs ≤ 9999999999) : moment? (.int n) = some ⟨n, 0⟩ := if_pos h

theorem iso_seconds (h : n.natAbs ≤ 9999999999) :
    Moment.iso ⟨n, 0⟩ = String.ofList (Stamp.ofSeconds n).chars := by
  obtain ⟨hlo, hhi⟩ := year_bounds h
  rw [Moment.iso, Stamp.isoChars_ofSeconds (by omega) (by omega)]

/-- **Seconds of at most ten digits are written as the stamp that tells them.** -/
theorem iso?_int (h : n.natAbs ≤ 9999999999) :
    iso? (.int n) = some (String.ofList (Stamp.ofSeconds n).chars) := by
  rw [iso?, moment?_int h, Option.map_some, iso_seconds h]

/-- What is written is read as it is written. -/
theorem iso?_str_stamp (h : n.natAbs ≤ 9999999999) :
    iso? (.str (String.ofList (Stamp.ofSeconds n).chars)) =
      some (String.ofList (Stamp.ofSeconds n).chars) := by
  obtain ⟨hlo, hhi⟩ := year_bounds h
  have hyear : 0 ≤ (Date.ofDays (n / 86400)).year ∧ (Date.ofDays (n / 86400)).year ≤ 9999 := by
    omega
  rw [← iso_seconds h, iso?_iso (onClock_of_moment? (moment?_int h))]
  exact if_pos hyear

theorem tells_ofSeconds (h : n.natAbs ≤ 9999999999) :
    (Stamp.ofSeconds n).Tells n ∧ (Stamp.ofSeconds n).year < 10000 := by
  obtain ⟨hlo, hhi⟩ := year_bounds h
  refine ⟨Stamp.tells_ofSeconds (by omega), ?_⟩
  change (Date.ofDays (n / 86400)).year.toNat < 10000
  omega

/-- Exactly these seconds are written. -/
theorem isSome_iso?_int : (iso? (.int n)).isSome = true ↔ n.natAbs ≤ 9999999999 := by
  rw [iso?, Option.isSome_map]
  exact Option.isSome_ite

/-- **Later seconds are written later.** -/
theorem chars_lt_chars (hn : n.natAbs ≤ 9999999999) (hm : m.natAbs ≤ 9999999999) (h : n < m) :
    (Stamp.ofSeconds n).chars < (Stamp.ofSeconds m).chars := by
  obtain ⟨htells, hyear⟩ := tells_ofSeconds hn
  obtain ⟨htells', hyear'⟩ := tells_ofSeconds hm
  obtain ⟨hlo, -⟩ := year_bounds hn
  obtain ⟨hlo', -⟩ := year_bounds hm
  exact htells.chars_lt_chars htells' hyear hyear'
    (Stamp.fields_lt_fields h (by omega) (by omega))

/-- **Seconds from 1970 are written exactly and in order**: those of at most ten digits, each as
the stamp that tells it, which has one width, is read as it is written, and stands before the text
of any later second. -/
theorem iso?_seconds (n : Int) :
    ((iso? (.int n)).isSome = true ↔ n.natAbs ≤ 9999999999) ∧
      ∀ text, iso? (.int n) = some text →
        (∃ s : Stamp, text.toList = s.chars ∧ s.Tells n) ∧ text.length = 24 ∧
          iso? (.str text) = some text ∧
          ∀ m later, n < m → iso? (.int m) = some later → text < later := by
  refine ⟨isSome_iso?_int, fun text htext => ?_⟩
  have hn := isSome_iso?_int.mp (Option.isSome_of_eq_some htext)
  obtain ⟨htells, hyear⟩ := tells_ofSeconds hn
  obtain rfl := Option.some.inj (htext.symm.trans (iso?_int hn))
  refine ⟨⟨_, String.toList_ofList, htells⟩, ?_, iso?_str_stamp hn, fun m later hlt hlater => ?_⟩
  · rw [String.length_ofList, htells.length_chars hyear]
  · have hm := isSome_iso?_int.mp (Option.isSome_of_eq_some hlater)
    obtain rfl := Option.some.inj (hlater.symm.trans (iso?_int hm))
    rw [String.lt_iff, String.toList_ofList, String.toList_ofList]
    exact chars_lt_chars hn hm hlt

/-- The first second of all that are written, and the beginning of a leap day. -/
theorem iso?_seconds_first_and_leap_day :
    iso? (.int (-9999999999)) = some "1653-02-10T06:13:21.000Z" ∧
      iso? (.int 951782400) = some "2000-02-29T00:00:00.000Z" ∧
      (∃ s : Stamp, "1653-02-10T06:13:21.000Z".toList = s.chars ∧ s.Tells (-9999999999)) ∧
      iso? (.str "1653-02-10T06:13:21.000Z") = some "1653-02-10T06:13:21.000Z" ∧
      "1653-02-10T06:13:21.000Z" < "2000-02-29T00:00:00.000Z" := by
  have hfirst : iso? (.int (-9999999999)) = some "1653-02-10T06:13:21.000Z" := by decide +kernel
  have hleap : iso? (.int 951782400) = some "2000-02-29T00:00:00.000Z" := by decide +kernel
  obtain ⟨hstamp, -, hread, hlater⟩ := (iso?_seconds (-9999999999)).2 _ hfirst
  exact ⟨hfirst, hleap, hstamp, hread, hlater _ _ (by decide) hleap⟩

end DeviceStats.Timestamps
