import DeviceStats.Json.Decode
import DeviceStats.Json.Printer

/-!
# Step/Fault — why a declared step is refused

A step is a record.  One that has the form of a record may still be refused for what it says.
-/

namespace DeviceStats

open Json (Value Mismatch)

inductive StepFault
  /-- A key filter keeps and drops. -/
  | filterKeepsAndDrops
  /-- A key filter does neither. -/
  | filterEmpty
  | patternsNotMaps (v : Value)
  | patternsNotMap (v : Value)
  | rule (trigger : String) (cause : Mismatch)
  | unknownFunction (name : String)

namespace StepFault

def message : StepFault → String
  | .filterKeepsAndDrops => "Invalid filter: include and exclude are mutually exclusive"
  | .filterEmpty => "Invalid filter: one of include or exclude is required"
  | .patternsNotMaps v =>
    "Invalid declaration: renameKeys patterns must be an object or array, got " ++ v.text
  | .patternsNotMap v =>
    "Invalid declaration: renameKeys pattern map must be an object, got " ++ v.text
  | .rule trigger cause =>
    "Invalid declaration: renameKeys rule '" ++ trigger ++ "': " ++ cause.message
  | .unknownFunction name => "Unknown custom function: " ++ name

end StepFault

/-- Why a step, or what holds steps, cannot be read. -/
abbrev StepError := Json.DecodeError StepFault

def StepError.message : StepError → String
  | .mismatch m => m.message
  | .refused f => f.message

/-- Reads a part of a step. -/
abbrev StepDecoder (β : Type) := Json.Decoder Value StepFault β

end DeviceStats
