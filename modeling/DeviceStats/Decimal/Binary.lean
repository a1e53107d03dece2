/-!
# Decimal/Binary — 64-bit binary numbers, exactly

A finite binary number is `± m · 2 ^ q`.  `decode` reads `m` and `q` off its bits, and `nearest`
gives the bits of the binary number nearest to a fraction, the even one of two equally near.
-/

namespace DeviceStats.Decimal

/-- The parts of a finite binary number: its value is `± mantissa · 2 ^ exponent`. -/
structure Binary where
  negative : Bool
  mantissa : Nat
  exponent : Int
deriving DecidableEq, Repr

namespace Binary

def signBit : Nat := Nat.pow 2 63

/-- The bits of positive infinity. -/
def infinity : Nat := 0x7FF * Nat.pow 2 52

/-- Reads the bits of a finite number; nothing for infinities and what is no number. -/
def decode? (bits : UInt64) : Option Binary :=
  let n := bits.toNat
  let negative := n ≥ signBit
  let biased : Nat := n / Nat.pow 2 52 % 0x800
  let fraction := n % Nat.pow 2 52
  if biased = 0x7FF then none
  else if biased = 0 then some ⟨negative, fraction, -1074⟩
  else some ⟨negative, Nat.pow 2 52 + fraction, (biased : Int) - 1075⟩

/-- A fraction times a power of two, as a fraction. -/
def scale (num den : Nat) (e : Int) : Nat × Nat :=
  if 0 ≤ e then (num * Nat.pow 2 e.toNat, den) else (num, den * Nat.pow 2 (-e).toNat)

/-- The nearest whole number to a fraction, the even one of two equally near. -/
def roundEven (num den : Nat) : Nat :=
  let q := num / den
  let r := num % den
  if 2 * r < den then q
  else if den < 2 * r then q + 1
  else if q % 2 = 0 then q else q + 1

/-- The bits of the binary number nearest to a fraction, infinity where it lies beyond all.  The
exponent is chosen so that 53 bits are left before rounding; below the normal range it is fixed. -/
def nearest (negative : Bool) (num den : Nat) : UInt64 :=
  let sign := if negative then signBit else 0
  if num = 0 then (sign.toUInt64)
  else
    let guess : Int := (num.log2 : Int) - (den.log2 : Int)
    let (a, b) := scale num den (-guess)
    let top := if a < b then guess - 1 else guess
    let q := max (top - 52) (-1074)
    let (a, b) := scale num den (-q)
    let m := roundEven a b
    let magnitude := if m < Nat.pow 2 52 then m else ((q + 1074).toNat * Nat.pow 2 52) + m
    (sign + min magnitude infinity).toUInt64

/-- The value of a finite number as a fraction without its sign. -/
def magnitude (b : Binary) : Nat × Nat := scale b.mantissa 1 b.exponent

/-- The bits of a whole number rounded to binary. -/
def ofInt (n : Int) : UInt64 := nearest (n < 0) n.natAbs 1

end Binary

end DeviceStats.Decimal
