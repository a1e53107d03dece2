import DeviceStats.Routine

/-!
# Step/Error — why data cannot be normalized
-/

namespace DeviceStats

inductive TransformError
  | keyNotFound (key : String)
  | arrayKeyMissing (name : String)
  | routine (routine : Routine) (fault : RoutineFault)

def TransformError.message : TransformError → String
  | .keyNotFound key => "Unable to find key '" ++ key ++ "' in data"
  | .arrayKeyMissing name => "convertArrayToMap: array element missing key '" ++ name ++ "'"
  | .routine r fault => "Function '" ++ r.name ++ "' failed: " ++ fault.message

end DeviceStats
