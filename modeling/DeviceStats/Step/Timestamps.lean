import DeviceStats.Json.Value
import DeviceStats.Time.Reader

/-!
# Step/Timestamps — moments written one way

The values under the given keys, at any depth, that tell a moment are replaced by its written form;
others stay.  A whole number tells a moment by its seconds, as does a text of at most ten digits;
any other text is read in the layouts of `Time`.
-/

namespace DeviceStats

open Json (Value)
open Time (Moment)

namespace Timestamps

/-- The number that a text of digits writes. -/
def digitsValue (cs : List Char) : Nat := cs.foldl (fun n d => n * 10 + (d.toNat - '0'.toNat)) 0

/-- The moment that a text tells, blanks around it aside. -/
def ofText? (s : String) : Option Moment :=
  let cs := Text.trimChars s.toList
  if cs.isEmpty then none
  else if cs.length ≤ 10 && cs.all Char.isDigit then Moment.ofSeconds? (digitsValue cs)
  else Moment.ofChars? cs

/-- The moment that a value tells. -/
def moment? : Value → Option Moment
  | .num (.int n) => Moment.ofSeconds? n
  | .str s => ofText? s
  | _ => none

/-- The written form of the moment that a value tells. -/
def iso? (v : Value) : Option String := (moment? v).map Moment.iso

/-- A value in its written form if it tells a moment, else as it is. -/
def written (v : Value) : Value :=
  match iso? v with
  | some s => .str s
  | none => v

mutual

/-- Writes what stands under the given keys, and looks for them everywhere else. -/
def apply (keys : List String) : Value → Value
  | .arr items => .arr (applyItems keys items)
  | .obj fields => .obj (applyFields keys fields)
  | v => v

def applyItems (keys : List String) : List Value → List Value
  | [] => []
  | v :: vs => apply keys v :: applyItems keys vs

def applyFields (keys : List String) : List (String × Value) → List (String × Value)
  | [] => []
  | (k, v) :: rest =>
    (k, if keys.contains k then written v else apply keys v) :: applyFields keys rest

end

end Timestamps

end DeviceStats
