/-!
# Text/Utf8 — characters as bytes

`encode` writes a code point in one to four bytes.  `sequences` splits a range of code points into
runs whose written forms are exactly the products of byte ranges, so that a matcher can read a
class of characters byte by byte.
-/

namespace DeviceStats.Text.Utf8

/-! ## One character -/

/-- How many bytes a code point takes. -/
def width (n : Nat) : Nat :=
  if n < 0x80 then 1 else if n < 0x800 then 2 else if n < 0x10000 then 3 else 4

/-- The bytes of a code point. -/
def encode (n : Nat) : List Nat :=
  match width n with
  | 1 => [n]
  | 2 => [0xC0 + n / 0x40, 0x80 + n % 0x40]
  | 3 => [0xE0 + n / 0x1000, 0x80 + n / 0x40 % 0x40, 0x80 + n % 0x40]
  | _ => [0xF0 + n / 0x40000, 0x80 + n / 0x1000 % 0x40, 0x80 + n / 0x40 % 0x40, 0x80 + n % 0x40]

/-- The code point that a list of bytes writes, if it writes just one. -/
def decode? (bs : List Nat) : Option Nat :=
  let n? : Option Nat :=
    match bs with
    | [a] => some a
    | [a, b] => some ((a - 0xC0) * 0x40 + (b - 0x80))
    | [a, b, c] => some (((a - 0xE0) * 0x40 + (b - 0x80)) * 0x40 + (c - 0x80))
    | [a, b, c, d] =>
      some ((((a - 0xF0) * 0x40 + (b - 0x80)) * 0x40 + (c - 0x80)) * 0x40 + (d - 0x80))
    | _ => none
  n?.bind fun n => if encode n = bs then some n else none

/-- Whether a byte starts a character. -/
def isStart (b : UInt8) : Bool := b < 0x80 || 0xC0 ≤ b

/-! ## Ranges of characters -/

/-- A range of byte values. -/
structure ByteRange where
  lo : Nat
  hi : Nat
deriving DecidableEq, Repr, Hashable

/-- Splits a range after a point inside it. -/
def cut (lo hi at_ : Nat) : List (Nat × Nat) := [(lo, at_), (at_ + 1, hi)]

/-- Splits a range so that the pieces end where the low `6 * i` bits roll over, starting from a
piece whose ends need no finer split. -/
def split : Nat → Nat × Nat → List (Nat × Nat)
  | 0, r => [r]
  | fuel + 1, (lo, hi) =>
    let pieces : Option (List (Nat × Nat)) :=
      if lo < 0xE000 ∧ 0xD7FF < hi then some [(lo, 0xD7FF), (0xE000, hi)]
      else
        match [0x7F, 0x7FF, 0xFFFF].find? fun m => lo ≤ m && m < hi with
        | some m => some (cut lo hi m)
        | none =>
          if hi < 0x80 then none
          else
            [0x40, 0x1000, 0x40000].findSome? fun m =>
              if lo / m = hi / m then none
              else if lo % m ≠ 0 then some (cut lo hi (lo - lo % m + m - 1))
              else if hi % m ≠ m - 1 then some (cut lo hi (hi - hi % m - 1))
              else none
    match pieces with
    | some ps => ps.flatMap fun p => if p.1 ≤ p.2 then split fuel p else []
    | none => [(lo, hi)]

/-- The byte ranges, position by position, of all characters between two code points.  Sixteen
splits suffice: one at the hole, three between the lengths and four at each lower position. -/
def sequences (lo hi : Nat) : List (List ByteRange) :=
  (split 16 (lo, hi)).map fun (a, b) => List.zipWith (⟨·, ·⟩) (encode a) (encode b)

end DeviceStats.Text.Utf8
