import DeviceStats.Decimal.Binary

/-!
# Decimal/Shortest — the shortest decimal that reads back as a binary number

The decimals that read back as a binary number are those nearer to it than to its neighbours; the
points halfway belong to it when its mantissa is even.  `shortest` takes the fewest digits for which
there is such a decimal, and of those the nearest.  On a grid of decimals it is enough to look at
the number's two neighbours: if any point of the grid reads back, one of them does.
-/

namespace DeviceStats.Decimal

/-- The decimal `digits · 10 ^ exponent`. -/
structure Scientific where
  digits : Nat
  exponent : Int
deriving DecidableEq, Repr

def countDigits (n : Nat) : Nat := (Nat.toDigits 10 n).length

/-- The exponent of the first digit of a fraction. -/
def firstExponent (num den : Nat) : Int :=
  let k : Int := (countDigits num : Int) - (countDigits den : Int)
  let reaches :=
    if 0 ≤ k then den * Nat.pow 10 k.toNat ≤ num else den ≤ num * Nat.pow 10 (-k).toNat
  if reaches then k else k - 1

/-- The two ends of what reads back as a positive number, over four times its power of two. -/
def ends (b : Binary) : Nat × Nat :=
  let low :=
    if b.mantissa = Nat.pow 2 52 ∧ b.exponent ≠ -1074 then 4 * b.mantissa - 1
    else 4 * b.mantissa - 2
  (low, 4 * b.mantissa + 2)

/-- Whether a decimal lies between the ends. -/
def readsBack (b : Binary) (d : Scientific) : Bool :=
  let (low, high) := ends b
  -- all three over the common denominator of the two powers
  let (p, r) := Binary.scale 1 1 (b.exponent - 2)
  let (t, u) :=
    if 0 ≤ d.exponent then (Nat.pow 10 d.exponent.toNat, 1)
    else (1, Nat.pow 10 (-d.exponent).toNat)
  let x := d.digits * t * r
  let lo := low * p * u
  let hi := high * p * u
  if b.mantissa % 2 = 0 then lo ≤ x && x ≤ hi else lo < x && x < hi

/-- The neighbours of a number on the grid of multiples of a power of ten, the nearer first. -/
def neighbours (num den : Nat) (e : Int) : List Scientific :=
  let (a, b) :=
    if 0 ≤ e then (num, den * Nat.pow 10 e.toNat) else (num * Nat.pow 10 (-e).toNat, den)
  let q := a / b
  let r := a % b
  let below : Scientific := ⟨q, e⟩
  let above : Scientific := ⟨q + 1, e⟩
  if r = 0 then [below]
  else if 2 * r < b ∨ (2 * r = b ∧ q % 2 = 0) then [below, above]
  else [above, below]

/-- Takes zeros off the end of the digits. -/
def Scientific.trim : Nat → Scientific → Scientific
  | 0, d => d
  | fuel + 1, d =>
    if d.digits ≠ 0 ∧ d.digits % 10 = 0 then trim fuel ⟨d.digits / 10, d.exponent + 1⟩ else d

/-- The shortest decimal that reads back as a positive number. -/
def shortest (b : Binary) : Scientific :=
  let (num, den) := b.magnitude
  let first := firstExponent num den
  let hit := (List.range 17).findSome? fun (k : Nat) =>
    (neighbours num den (first - k)).find? (readsBack b)
  (hit.getD ⟨b.mantissa, b.exponent⟩).trim 20

end DeviceStats.Decimal
