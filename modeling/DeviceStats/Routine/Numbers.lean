import DeviceStats.Decimal.Reader
import DeviceStats.Routine.Fault
import DeviceStats.Text.Blank

/-!
# Routine/Numbers — percentages, sums and averages

Numbers and texts that write numbers are taken as binary numbers.  A result that is whole is written
as a whole number, and one that is no finite number as null.
-/

namespace DeviceStats.Numbers

open Json (Value Object)

/-- The binary number of a value. -/
def float? : Value → Option Float
  | .num n => some n.toFloat
  | .str s => (Decimal.readBits? (Text.trimChars s.toList)).map Float.ofBits
  | _ => none

/-- The whole number that a binary number is. -/
def whole? (b : Decimal.Binary) : Option Int :=
  let (num, den) := b.magnitude
  if num % den = 0 then some (if b.negative then -(num / den : Nat) else (num / den : Nat))
  else none

/-- A result as a value; whole results stay whole inside 64 bits. -/
def value (x : Float) : Value :=
  match Decimal.Binary.decode? x.toBits with
  | none => .null
  | some b =>
    match whole? b with
    | some n => if n.natAbs < Nat.pow 2 63 then .int n else .num (.float x.toBits)
    | none => .num (.float x.toBits)

/-! ## Percentages -/

/-- The nearest whole number, halves away from zero, kept inside 64 bits; 0 for no number. -/
def rounded (x : Float) : Int := x.round.toInt64.toInt

def textArgument? (args : Object) (name : String) : Option String :=
  (args.get? name).bind Value.str?

def textArgument (args : Object) (name : String) : Except RoutineFault String :=
  match textArgument? args name with
  | some s => .ok s
  | none => .error (.missingArgument name)

def numberUnder (v : Value) (key : String) : Except RoutineFault Float :=
  match (v.get? key).bind float? with
  | some x => .ok x
  | none => .error (.notNumeric key)

/-- How much one number is of another, or with `inverse` what is left, in percent.  It is 0 of 0. -/
def percent (args : Object) (v : Value) : Except RoutineFault Value := do
  let totalKey ← textArgument args "totalKey"
  let partialKey ← textArgument args "partialKey"
  let total ← numberUnder v totalKey
  let part ← numberUnder v partialKey
  if total == 0 then return .int 0
  let share := part / total * 100
  let inverse := ((args.get? "inverse").bind Value.bool?).getD false
  return .int (rounded (if inverse then 100 - share else share))

/-! ## Sums and averages -/

/-- The sum of the numbers seen under a key and how many they are. -/
structure Total where
  sum : Float
  count : Nat

def Total.add (o : Named Total) (key : String) (x : Float) : Named Total :=
  match o.get? key with
  | some t => o.insert key ⟨t.sum + x, t.count + 1⟩
  | none => o.insert key ⟨x, 1⟩

/-- The totals of the numeric entries of the objects inside an object. -/
def totals (v : Value) : Named Total :=
  let children := (v.obj?.getD []).filterMap fun kv => kv.2.obj?
  children.flatten.foldl (fun o kv =>
    match float? kv.2 with
    | some x => Total.add o kv.1 x
    | none => o) []

def sums (v : Value) : Value := .obj ((totals v).mapValues fun t => value t.sum)

def averages (v : Value) : Value :=
  .obj ((totals v).mapValues fun t => value (t.sum / t.count.toFloat))

end DeviceStats.Numbers
