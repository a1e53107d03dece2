import DeviceStats.Json.Number
import DeviceStats.Named

/-!
# Json/Value — values and their objects

An object holds named values in the order in which the names were first given.  Two objects are the
same when they give the same values to the same names, in whatever order.
-/

namespace DeviceStats.Json

inductive Value
  | null
  | bool (b : Bool)
  | num (n : Number)
  | str (s : String)
  | arr (items : List Value)
  | obj (fields : List (String × Value))
deriving Repr, Inhabited

/-- The contents of an object. -/
abbrev Object := Named Value

namespace Value

def int (n : Int) : Value := .num (.int n)

def ofNat (n : Nat) : Value := .num (.int n)

/-! ## Views -/

def str? : Value → Option String
  | .str s => some s
  | _ => none

def bool? : Value → Option Bool
  | .bool b => some b
  | _ => none

def obj? : Value → Option Object
  | .obj fields => some fields
  | _ => none

def arr? : Value → Option (List Value)
  | .arr items => some items
  | _ => none

def isObj (v : Value) : Bool := v.obj?.isSome

def isNull : Value → Bool
  | .null => true
  | _ => false

/-- The value under a name of an object. -/
def get? (v : Value) (key : String) : Option Value :=
  match v with
  | .obj fields => Named.get? fields key
  | _ => none

/-! ## Sameness -/

mutual

/-- Whether two values are the same; the order of an object's names does not count. -/
def same : Value → Value → Bool
  | .null, .null => true
  | .bool a, .bool b => a == b
  | .num a, .num b => a.same b
  | .str a, .str b => a == b
  | .arr xs, .arr ys => sameItems xs ys
  | .obj xs, .obj ys => xs.length == ys.length && sameFields xs ys
  | _, _ => false

def sameItems : List Value → List Value → Bool
  | [], [] => true
  | x :: xs, y :: ys => x.same y && sameItems xs ys
  | _, _ => false

/-- Whether each named value has the same one under its name in the other object. -/
def sameFields : List (String × Value) → List (String × Value) → Bool
  | [], _ => true
  | (k, v) :: rest, ys =>
    (match Named.get? ys k with
      | some w => v.same w
      | none => false) && sameFields rest ys

end

end Value

end DeviceStats.Json
