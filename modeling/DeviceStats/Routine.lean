import DeviceStats.Routine.HardwareAddress
import DeviceStats.Routine.Numbers
import DeviceStats.Routine.Regroup
import DeviceStats.Routine.Table
import DeviceStats.Step.Fault

/-!
# Routine — the routines a declaration may call

A call names a routine and gives it arguments.
-/

namespace DeviceStats

open Json (Value Object Decoder Field)

inductive Routine
  | hardwareAddress
  | percent
  | firstKey
  | sum
  | average
  | table
  | byRule
deriving DecidableEq, Repr

namespace Routine

def all : List Routine := [.hardwareAddress, .percent, .firstKey, .sum, .average, .table, .byRule]

def name : Routine → String
  | .hardwareAddress => "formatMacAddress"
  | .percent => "getPercentFromKeys"
  | .firstKey => "getFirstKey"
  | .sum => "getSum"
  | .average => "getAverage"
  | .table => "parseCsv"
  | .byRule => "restructureRules"

def ofName? (s : String) : Option Routine := all.find? (·.name == s)

def run : Routine → Object → Value → Except RoutineFault Value
  | .hardwareAddress, args, v => HardwareAddress.run args v
  | .percent, args, v => Numbers.percent args v
  | .firstKey, args, v => Regroup.firstKey args v
  | .sum, _, v => .ok (Numbers.sums v)
  | .average, _, v => .ok (Numbers.averages v)
  | .table, args, v => Table.run args v
  | .byRule, _, v => Regroup.byRule v

end Routine

/-- A routine with its arguments. -/
structure RoutineCall where
  routine : Routine
  args : Object

namespace RoutineCall

def decodeRoutine : StepDecoder Routine := fun v => do
  let name ← Decoder.string v
  match Routine.ofName? name with
  | some r => return r
  | none => .error (.refused (.unknownFunction name))

def decode : StepDecoder RoutineCall :=
  Decoder.record "FunctionCall" [
    .needed "name" decodeRoutine fun c routine => { c with routine },
    .given "args" (Decoder.named Decoder.value) fun c args => { c with args }]
    ⟨.sum, []⟩

/-- Empty arguments are not written. -/
def encode (c : RoutineCall) : Value :=
  .obj (("name", .str c.routine.name) :: if c.args.isEmpty then [] else [("args", .obj c.args)])

def run (c : RoutineCall) (v : Value) : Except RoutineFault Value := c.routine.run c.args v

end RoutineCall

end DeviceStats
