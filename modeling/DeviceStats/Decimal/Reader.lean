import DeviceStats.Decimal.Binary

/-!
# Decimal/Reader — binary numbers read from decimal texts

A number has digits before or after an optional point, and may have a sign and an exponent; the
words `inf`, `infinity` and `nan` are numbers too.  The result is the nearest binary number.
-/

namespace DeviceStats.Decimal

/-- The bits that stand for no number. -/
def nanBits : UInt64 := 0x7FF8000000000000

/-- The value of a list of digits. -/
def digitsValue (ds : List Char) : Nat := ds.foldl (fun n d => n * 10 + (d.toNat - '0'.toNat)) 0

/-- A sign and what follows it. -/
def readSign : List Char → Bool × List Char
  | '-' :: cs => (true, cs)
  | '+' :: cs => (false, cs)
  | cs => (false, cs)

/-- An exponent that makes up a whole text; no text is exponent 0. -/
def readExponent? : List Char → Option Int
  | [] => some 0
  | c :: cs =>
    if c = 'e' ∨ c = 'E' then
      let (down, ds) := readSign cs
      if ds.isEmpty || !ds.all Char.isDigit then none
      else if down then some (-digitsValue ds) else some (digitsValue ds)
    else none

/-- `digits · 10 ^ exponent` rounded to binary.  Values far beyond all binary numbers or far below
them are settled by the place of their first digit. -/
def nearestDecimal (negative : Bool) (digits : List Char) (exponent : Int) : UInt64 :=
  let digits := digits.dropWhile (· == '0')
  let first := exponent + digits.length
  let n := digitsValue digits
  if n = 0 || first < -400 then Binary.nearest negative 0 1
  else if 400 < first then Binary.nearest negative (Nat.pow 10 400) 1
  else if 0 ≤ exponent then Binary.nearest negative (n * Nat.pow 10 exponent.toNat) 1
  else Binary.nearest negative n (Nat.pow 10 (-exponent).toNat)

/-- The bits of the number that a whole text writes. -/
def readBits? (cs : List Char) : Option UInt64 :=
  let (negative, cs) := readSign cs
  let word := cs.map Char.toLower
  if word = "inf".toList ∨ word = "infinity".toList then
    some (Binary.nearest negative (Nat.pow 10 400) 1)
  else if word = "nan".toList then some nanBits
  else
    let whole := cs.takeWhile Char.isDigit
    let (fraction, rest) :=
      match cs.dropWhile Char.isDigit with
      | '.' :: rest => (rest.takeWhile Char.isDigit, rest.dropWhile Char.isDigit)
      | rest => ([], rest)
    if whole.isEmpty && fraction.isEmpty then none
    else
      (readExponent? rest).map fun e =>
        nearestDecimal negative (whole ++ fraction) (e - fraction.length)

end DeviceStats.Decimal
