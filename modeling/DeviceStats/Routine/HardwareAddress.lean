import DeviceStats.Routine.Fault
import DeviceStats.Text.Split

/-!
# Routine/HardwareAddress — network hardware addresses written one way

An address is six groups of one or two hexadecimal digits with colons between them.  Its canonical
form has two digits in each group and no capitals.
-/

namespace DeviceStats.HardwareAddress

open Json (Value Object)

def isHex (c : Char) : Bool :=
  c.isDigit || ('a' ≤ c && c ≤ 'f') || ('A' ≤ c && c ≤ 'F')

/-- A group in two digits. -/
def group? : List Char → Option (List Char)
  | [a] => if isHex a then some ['0', a.toLower] else none
  | [a, b] => if isHex a && isHex b then some [a.toLower, b.toLower] else none
  | _ => none

/-- The canonical form of an address. -/
def canonicalChars? (cs : List Char) : Option (List Char) := do
  let groups ← (Text.splitOnChar ':' cs).mapM group?
  if groups.length = 6 then some (Text.join [':'] groups) else none

def canonical (s : String) : Except RoutineFault String :=
  match canonicalChars? s.toList with
  | some cs => .ok (String.ofList cs)
  | none => .error (.notAddress s)

/-! ## In values -/

mutual

/-- The texts under the given keys in canonical form, as far as they are reached through objects. -/
def canonicalValue (keys : List String) : Value → Except RoutineFault Value
  | .obj fields => do return .obj (← canonicalFields keys fields)
  | v => .ok v

def canonicalFields (keys : List String) :
    List (String × Value) → Except RoutineFault (List (String × Value))
  | [] => .ok []
  | (k, .str s) :: rest => do
    let s ← if keys.contains k then canonical s else pure s
    return (k, .str s) :: (← canonicalFields keys rest)
  | (k, v) :: rest => do
    let v ← canonicalValue keys v
    return (k, v) :: (← canonicalFields keys rest)

end

/-- The keys under which addresses are looked for unless others are given. -/
def defaultKeys : List String := ["macAddress"]

/-- The keys that arguments give. -/
def keysOf (args : Object) : List String :=
  match args.get? "keys" with
  | some (.arr keys) => keys.filterMap Value.str?
  | _ => defaultKeys

/-- An address, or an object that holds addresses, in canonical form. -/
def run (args : Object) : Value → Except RoutineFault Value
  | .str s => do return .str (← canonical s)
  | .obj fields => canonicalValue (keysOf args) (.obj fields)
  | v => .error (.notAddressHolder v)

end DeviceStats.HardwareAddress
