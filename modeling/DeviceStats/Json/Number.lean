import DeviceStats.Decimal.Shortest

/-!
# Json/Number — whole and binary numbers

A number that is written without point and exponent and fits 64 bits stays whole; every other is a
finite 64-bit binary number, kept by its bits.  `1` and `1.0` are different numbers.
-/

namespace DeviceStats.Json

inductive Number
  | int (n : Int)
  | float (bits : UInt64)
deriving DecidableEq, Repr, Inhabited

namespace Number

/-- Whole numbers fit 64 bits, with or without a sign. -/
def fits (n : Int) : Bool := -Nat.pow 2 63 ≤ n && n < Nat.pow 2 64

/-- Two numbers are the same when both are whole and equal, or both binary and equal.  The two
binary zeros are equal. -/
def same : Number → Number → Bool
  | .int a, .int b => a == b
  | .float a, .float b => a == b || (a <<< 1 == 0 && b <<< 1 == 0)
  | _, _ => false

/-- The number as a binary one. -/
def toBits : Number → UInt64
  | .int n => Decimal.Binary.ofInt n
  | .float bits => bits

def toFloat (n : Number) : Float := Float.ofBits n.toBits

/-! ## Text -/

/-- How many digits a binary number may have before its point, and how many zeros right after it,
without being written with an exponent. -/
def plainExponents : Int × Int := (-5, 15)

def zeros (n : Nat) : String := String.ofList (List.replicate n '0')

/-- Writes a positive decimal.  There is always a point or an exponent, so that it reads back as a
binary number. -/
def textOfDecimal (d : Decimal.Scientific) : String :=
  let ds := toString d.digits
  let count := ds.length
  let first : Int := d.exponent + count - 1
  if first < plainExponents.1 ∨ plainExponents.2 < first then
    let rest := String.ofList (ds.toList.drop 1)
    let head := String.ofList (ds.toList.take 1)
    let sign := if first < 0 then "-" else "+"
    head ++ (if rest.isEmpty then "" else "." ++ rest) ++ "e" ++ sign ++ toString first.natAbs
  else if first < 0 then "0." ++ zeros (-first - 1).toNat ++ ds
  else if 0 ≤ d.exponent then ds ++ zeros d.exponent.toNat ++ ".0"
  else
    let whole := (first + 1).toNat
    String.ofList (ds.toList.take whole) ++ "." ++ String.ofList (ds.toList.drop whole)

/-- Writes a binary number with the fewest digits that read back the same. -/
def textOfBits (bits : UInt64) : String :=
  match Decimal.Binary.decode? bits with
  | none => "null"
  | some b =>
    let text := if b.mantissa = 0 then "0.0" else textOfDecimal (Decimal.shortest b)
    if b.negative then "-" ++ text else text

def text : Number → String
  | .int n => toString n
  | .float bits => textOfBits bits

end Number

end DeviceStats.Json
