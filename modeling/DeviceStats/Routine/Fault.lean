import DeviceStats.Json.Printer

/-!
# Routine/Fault — why a routine fails
-/

namespace DeviceStats

open Json (Value)

inductive RoutineFault
  | notAddress (text : String)
  | notAddressHolder (v : Value)
  | missingArgument (name : String)
  | notNumeric (key : String)
  | noFirstKey
  | notText
  | missingColumn (name : String)
  | notObject

def RoutineFault.message : RoutineFault → String
  | .notAddress text => "invalid MAC address '" ++ text ++ "'"
  | .notAddressHolder v => "expected a string or object, got " ++ v.text
  | .missingArgument name => "missing argument '" ++ name ++ "'"
  | .notNumeric key => "key '" ++ key ++ "' is missing or not numeric"
  | .noFirstKey => "expected a non-empty object"
  | .notText => "expected CSV text"
  | .missingColumn name => "row missing column '" ++ name ++ "'"
  | .notObject => "expected an object"

end DeviceStats
