import DeviceStats.Text.Blank
import DeviceStats.Time.Moment

/-!
# Time/Reader — moments read from texts

A moment is written in one of several layouts: the internet date with its offset, the date of a mail
header, and five plain layouts that are read as universal time; a bare date stands for its midnight.
The first layout that the whole text follows and that names a real date decides.
-/

namespace DeviceStats.Time

open Text (isBlank)

/-- The parts of a moment read so far. -/
structure Parts where
  year : Option Int := none
  month : Option Nat := none
  day : Option Nat := none
  hour : Option Nat := none
  minute : Option Nat := none
  second : Nat := 0
  nanos : Nat := 0
  /-- Counted from Monday. -/
  weekday : Option Nat := none
  /-- By how many seconds the clock is ahead of universal time. -/
  ahead : Int := 0

namespace Parts

/-- Years that can be told. -/
def isYear (year : Int) : Bool := -262143 ≤ year && year ≤ 262142

/-- The date, if it is real and the weekday given with it is right. -/
def date? (p : Parts) : Option Date := do
  let d : Date := ⟨← p.year, ← p.month, ← p.day⟩
  if isYear d.year && d.isValid && p.weekday.all (· == d.weekday) then some d else none

/-- The moment of a date and a time.  It has to lie in a year that can be told, too. -/
def moment? (p : Parts) : Option Moment := do
  let d ← p.date?
  let m := Moment.ofClock d (← p.hour) (← p.minute) p.second p.nanos p.ahead
  if isYear m.date.year then some m else none

end Parts

/-! ## Reading parts -/

/-- Reads the parts at the start of a text. -/
abbrev Reader := StateT (List Char) Option

namespace Reader

def fail {α : Type} : Reader α := fun _ => none

/-- A number of `least` to `most` digits. -/
def number (least : Nat) (most : Option Nat) : Reader Nat := fun cs =>
  let digits := (match most with
    | some n => cs.take n
    | none => cs).takeWhile Char.isDigit
  if digits.length < least then none
  else some (digits.foldl (fun n d => n * 10 + (d.toNat - '0'.toNat)) 0, cs.drop digits.length)

/-- A number that lies between two bounds. -/
def within (lo hi : Nat) (n : Nat) : Reader Nat := if lo ≤ n && n ≤ hi then return n else fail

def char (c : Char) : Reader Unit := fun
  | d :: cs => if c = d then some ((), cs) else none
  | [] => none

def oneOf (choices : List Char) : Reader Unit := fun
  | d :: cs => if choices.contains d then some ((), cs) else none
  | [] => none

def blanks : Reader Unit := modify (·.dropWhile isBlank)

/-- At least one blank. -/
def gap : Reader Unit := fun
  | c :: cs => if isBlank c then some ((), cs.dropWhile isBlank) else none
  | [] => none

/-- A name of three letters, in capitals or not; its place in a list. -/
def name (names : List String) : Reader Nat := fun cs =>
  let word := (cs.take 3).map Char.toLower
  (names.findIdx? (·.toList == word)).map fun i => (i, cs.drop 3)

def weekday : Reader Nat := name ["mon", "tue", "wed", "thu", "fri", "sat", "sun"]

def monthName : Reader Nat := do
  return (← name ["jan", "feb", "mar", "apr", "may", "jun", "jul", "aug", "sep", "oct", "nov",
    "dec"]) + 1

/-- The digits after a point as nanoseconds; digits beyond the ninth do not count. -/
def fraction : Reader Nat := do
  match ← get with
  | '.' :: cs =>
    set cs
    let n ← number 1 (some 9)
    let read := cs.length - (← get).length
    modify (·.dropWhile Char.isDigit)
    return n * Nat.pow 10 (9 - read)
  | _ => return 0

/-- Hours and minutes of an offset after its sign, with something between them. -/
def hoursAndMinutes (between : Reader Unit) : Reader Int := do
  let hours ← number 2 (some 2)
  between
  let minutes ← within 0 59 (← number 2 (some 2))
  return (hours * 3600 + minutes * 60 : Nat)

/-- A signed offset. -/
def signed (minus : List Char) (between : Reader Unit) : Reader Int := do
  match ← get with
  | '+' :: cs =>
    set cs
    hoursAndMinutes between
  | c :: cs =>
    if minus.contains c then
      set cs
      return -(← hoursAndMinutes between)
    else fail
  | [] => fail

/-! ## The internet date -/

/-- An offset of less than a day, or the letter for none. -/
def offset : Reader Int := do
  match ← get with
  | c :: cs =>
    if c = 'Z' ∨ c = 'z' then
      set cs
      return 0
    else
      let ahead ← signed ['-', '\u2212'] (char ':')
      if ahead.natAbs < 86400 then return ahead else fail
  | [] => fail

/-- `2020-09-13T14:26:40.5+02:00`, each part in its full width. -/
def internet : Reader Parts := do
  let year ← number 4 (some 4)
  char '-'
  let month ← number 2 (some 2)
  char '-'
  let day ← number 2 (some 2)
  oneOf ['t', 'T', ' ']
  let hour ← within 0 23 (← number 2 (some 2))
  char ':'
  let minute ← within 0 59 (← number 2 (some 2))
  char ':'
  let second ← within 0 60 (← number 2 (some 2))
  let nanos ← fraction
  let ahead ← offset
  return { year := some year, month, day, hour, minute, second, nanos, ahead }

/-! ## The date of a mail header -/

/-- The offsets that have names, in hours. -/
def zoneHours : List (String × Int) := [
  ("gmt", 0), ("ut", 0), ("edt", -4), ("est", -5), ("cdt", -5), ("cst", -6), ("mdt", -6),
  ("mst", -7), ("pdt", -7), ("pst", -8)]

/-- An offset by name or by number.  A single letter other than `j` says nothing of the offset. -/
def zone : Reader Int := do
  let cs ← get
  let word := (cs.takeWhile Char.isAlpha).map Char.toLower
  if word.isEmpty then
    let ahead ← signed ['-'] (return ())
    if ahead.natAbs < 86400 then return ahead else fail
  else
    set (cs.drop word.length)
    match zoneHours.find? (·.1.toList == word), word with
    | some (_, hours), _ => return hours * 3600
    | none, [c] => if c = 'j' then fail else return 0
    | none, _ => fail

/-- The text after a comment in parentheses, which may nest and hold escaped characters. -/
def afterComment? : Nat → List Char → Option (List Char)
  | _, [] => none
  | depth, '\\' :: cs =>
    match depth, cs with
    | 0, _ => none
    | _, [] => none
    | depth, _ :: cs => afterComment? depth cs
  | depth, '(' :: cs => afterComment? (depth + 1) cs
  | 0, _ => none
  | 1, ')' :: cs => some cs
  | depth + 1, ')' :: cs => afterComment? depth cs
  | depth, _ :: cs => afterComment? depth cs

/-- Passes comments as long as they are complete. -/
def comments : Nat → Reader Unit
  | 0 => return ()
  | fuel + 1 => do
    match afterComment? 0 ((← get).dropWhile isBlank) with
    | some rest =>
      set rest
      comments fuel
    | none => return ()

/-- A year of two or three digits lies near the present. -/
def shortYear : Reader Int := do
  let before := (← get).length
  let year ← number 2 none
  match before - (← get).length with
  | 2 => return if year < 50 then year + 2000 else year + 1900
  | 3 => return year + 1900
  | _ => return year

/-- Something, if it can be read. -/
def attempt {α : Type} (r : Reader α) : Reader (Option α) := fun cs =>
  match r cs with
  | some (a, rest) => some (some a, rest)
  | none => some (none, cs)

/-- `Sun, 13 Sep 2020 12:26:40 +0200 (comment)`; weekday and seconds may be missing. -/
def mail : Reader Parts := do
  blanks
  let weekday ← attempt weekday
  if weekday.isSome then char ','
  blanks
  let day ← number 1 (some 2)
  gap
  let month ← monthName
  gap
  let year ← shortYear
  gap
  let hour ← within 0 23 (← number 2 (some 2))
  blanks
  char ':'
  blanks
  let minute ← within 0 59 (← number 2 (some 2))
  let second ← match ← attempt (do blanks; char ':') with
    | some _ => within 0 60 (← number 2 (some 2))
    | none => pure 0
  gap
  let ahead ← zone
  comments (← get).length
  return { year := some year, month, day, hour, minute, second, weekday, ahead }

/-! ## Plain layouts -/

/-- A part of a plain layout. -/
inductive Item
  | year
  | month
  | day
  | hour
  | minute
  | second
  | fraction
  | weekday
  | monthName
  | blanks
  | char (c : Char)

/-- A number after blanks, of at most two digits. -/
def two (lo hi : Nat) : Reader Nat := do
  blanks
  within lo hi (← number 1 (some 2))

/-- A year after blanks, of at most four digits unless it has a sign. -/
def longYear : Reader Int := do
  blanks
  match ← get with
  | '-' :: cs =>
    set cs
    return -(← number 1 none : Nat)
  | '+' :: cs =>
    set cs
    return (← number 1 none : Nat)
  | _ => return (← number 1 (some 4) : Nat)

def item (p : Parts) : Item → Reader Parts
  | .year => do return { p with year := ← longYear }
  | .month => do return { p with month := ← two 1 12 }
  | .day => do return { p with day := ← two 1 31 }
  | .hour => do return { p with hour := ← two 0 23 }
  | .minute => do return { p with minute := ← two 0 59 }
  | .second => do return { p with second := ← two 0 60 }
  | .fraction => do return { p with nanos := ← fraction }
  | .weekday => do return { p with weekday := ← weekday }
  | .monthName => do return { p with month := ← monthName }
  | .blanks => do
    blanks
    return p
  | .char c => do
    char c
    return p

def items (layout : List Item) : Reader Parts := layout.foldlM item {}

def dashedDate : List Item := [.year, .char '-', .month, .char '-', .day]

def clock : List Item := [.hour, .char ':', .minute, .char ':', .second]

def plainLayouts : List (List Item) := [
  dashedDate ++ [.char 'T'] ++ clock ++ [.fraction],
  dashedDate ++ [.blanks] ++ clock ++ [.fraction],
  [.weekday, .blanks, .monthName, .blanks, .day, .blanks] ++ clock ++ [.blanks, .year],
  [.monthName, .blanks, .day, .blanks] ++ clock ++ [.blanks, .year],
  [.year, .char '/', .month, .char '/', .day, .blanks] ++ clock]

/-! ## Whole texts -/

/-- What a reader makes of a whole text. -/
def whole {α : Type} (r : Reader α) (cs : List Char) : Option α :=
  match r cs with
  | some (a, []) => some a
  | _ => none

/-- Midnight of a date. -/
def midnight (p : Parts) : Parts := { p with hour := some 0, minute := some 0 }

def layouts : List (Reader Parts) :=
  [internet, mail] ++ plainLayouts.map items ++ [do return midnight (← items dashedDate)]

end Reader

/-- Reads a moment in the first layout that fits. -/
def Moment.ofChars? (cs : List Char) : Option Moment :=
  Reader.layouts.findSome? fun layout => (Reader.whole layout cs).bind Parts.moment?

/-! ## Counted seconds -/

/-- Seconds from 1970 are taken for a moment when they have at most ten digits. -/
def Moment.ofSeconds? (n : Int) : Option Moment :=
  if n.natAbs ≤ 9999999999 then some ⟨n, 0⟩ else none

end DeviceStats.Time
