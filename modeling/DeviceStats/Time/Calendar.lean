/-!
# Time/Calendar — days of the Gregorian calendar

The calendar is extended to all years, the year before year 1 being year 0.  `Date.toDays` counts
days from the first of January 1970 and `Date.ofDays` finds the date again; both count the years
from March, so that a leap day is the last day of its year.
-/

namespace DeviceStats.Time

structure Date where
  year : Int
  month : Nat
  day : Nat
deriving DecidableEq, Repr

def isLeap (year : Int) : Bool := year % 4 = 0 && (year % 100 ≠ 0 || year % 400 = 0)

def daysInMonth (year : Int) (month : Nat) : Nat :=
  match month with
  | 2 => if isLeap year then 29 else 28
  | 4 | 6 | 9 | 11 => 30
  | _ => 31

namespace Date

/-- Whether there is such a date. -/
def isValid (d : Date) : Bool :=
  1 ≤ d.month && d.month ≤ 12 && 1 ≤ d.day && d.day ≤ daysInMonth d.year d.month

/-- Days of 400 years. -/
def daysPerEra : Int := 146097

/-- Days from the first of March of year 0 to the first of January 1970. -/
def epoch : Int := 719468

/-- The days of the year before a month, counted from March. -/
def daysBefore (month : Nat) : Nat := (153 * (if 2 < month then month - 3 else month + 9) + 2) / 5

/-- Days from the first of January 1970. -/
def toDays (d : Date) : Int :=
  let y : Int := if 2 < d.month then d.year else d.year - 1
  let era := y / 400
  let yearOfEra := y % 400
  let dayOfEra :=
    yearOfEra * 365 + yearOfEra / 4 - yearOfEra / 100 + (daysBefore d.month + d.day - 1)
  era * daysPerEra + dayOfEra - epoch

/-- The date a number of days from the first of January 1970. -/
def ofDays (days : Int) : Date :=
  let z := days + epoch
  let era := z / daysPerEra
  let dayOfEra := (z % daysPerEra).toNat
  let yearOfEra := (dayOfEra - dayOfEra / 1460 + dayOfEra / 36524 - dayOfEra / 146096) / 365
  let dayOfYear := dayOfEra - (365 * yearOfEra + yearOfEra / 4 - yearOfEra / 100)
  let m := (5 * dayOfYear + 2) / 153
  let day := dayOfYear - (153 * m + 2) / 5 + 1
  let month := if m < 10 then m + 3 else m - 9
  let year := era * 400 + yearOfEra
  ⟨if 2 < month then year else year + 1, month, day⟩

/-- The day of the week, counted from Monday. -/
def weekday (d : Date) : Nat := ((d.toDays + 3) % 7).toNat

end Date

end DeviceStats.Time
