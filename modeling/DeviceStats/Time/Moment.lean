import DeviceStats.Time.Calendar

/-!
# Time/Moment — points in time and their written form

A moment is a number of seconds from the first of January 1970 and the nanoseconds after it.  A
leap second counts as the second before it with a thousand million nanoseconds more, and is written
as second 60.  `Moment.iso` writes a moment with milliseconds, a sign standing only before years
outside 0 to 9999.
-/

namespace DeviceStats.Time

structure Moment where
  seconds : Int
  nanos : Nat
deriving DecidableEq, Repr

/-- A number in decimal with leading zeros up to a width. -/
def padded (width n : Nat) : List Char :=
  let digits := (toString n).toList
  List.replicate (width - digits.length) '0' ++ digits

def yearChars (year : Int) : List Char :=
  if 0 ≤ year ∧ year ≤ 9999 then padded 4 year.toNat
  else (if year < 0 then '-' else '+') :: padded 4 year.natAbs

namespace Moment

def secondsPerDay : Int := 86400

def date (m : Moment) : Date := .ofDays (m.seconds / secondsPerDay)

/-- Seconds since the day began. -/
def secondOfDay (m : Moment) : Nat := (m.seconds % secondsPerDay).toNat

/-- The moment at which a date and a time of day are read on a clock that is ahead by a number of
seconds.  Second 60 is a leap second. -/
def ofClock (d : Date) (hour minute second nanos : Nat) (ahead : Int) : Moment :=
  let start := d.toDays * secondsPerDay + (hour * 3600 + minute * 60 : Nat) - ahead
  if second = 60 then ⟨start + 59, nanos + 1000000000⟩ else ⟨start + second, nanos⟩

/-- The written form, in universal time. -/
def isoChars (m : Moment) : List Char :=
  let s := m.secondOfDay
  yearChars m.date.year ++ '-' :: padded 2 m.date.month ++ '-' :: padded 2 m.date.day ++
    'T' :: padded 2 (s / 3600) ++ ':' :: padded 2 (s / 60 % 60) ++
    ':' :: padded 2 (s % 60 + m.nanos / 1000000000) ++
    '.' :: padded 3 (m.nanos % 1000000000 / 1000000) ++ ['Z']

def iso (m : Moment) : String := String.ofList m.isoChars

end Moment

end DeviceStats.Time
