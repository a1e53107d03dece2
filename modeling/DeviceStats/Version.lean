import DeviceStats.Text.Split

/-!
# Version — dotted versions

A version is the list of its numbers.  Versions are compared number by number; the shorter one is
continued by zeros.
-/

namespace DeviceStats

/-- The numbers of a dotted version. -/
abbrev Version := List Nat

namespace Version

/-- The number a segment starts with; zero where there is none or it does not fit 64 bits. -/
def number (segment : List Char) : Nat :=
  let digits := segment.takeWhile Char.isDigit
  let n := digits.foldl (fun n d => n * 10 + (d.toNat - '0'.toNat)) 0
  if n < Nat.pow 2 64 then n else 0

def ofString (s : String) : Version := (Text.splitOnChar '.' s.toList).map number

/-- Compares number by number, with zeros where one version has ended. -/
def cmp : Version → Version → Ordering
  | [], [] => .eq
  | [], b :: bs => (compare 0 b).then (cmp [] bs)
  | a :: as, [] => (compare a 0).then (cmp as [])
  | a :: as, b :: bs => (compare a b).then (cmp as bs)

/-- Whether one written version is at least another. -/
def atLeast (device wanted : String) : Bool := (cmp (ofString device) (ofString wanted)).isGE

end Version

end DeviceStats
