import DeviceStats.Cycle.Thread
import DeviceStats.Files

/-!
# Fixtures — responses recorded in files

The response of an endpoint stands in a file below a folder, at the path that the endpoint spells.
An endpoint that spells no way down has none.
-/

namespace DeviceStats.Fixtures

open Json (Value)

/-- The file of an endpoint. -/
def path? (dir endpoint : String) : Option String :=
  let relative := Path.strip endpoint.toList
  if Path.descends relative then
    some (String.ofList
      (Path.withLastName (· ++ ".json".toList) (Path.append dir.toList relative)))
  else none

def load (disk : Disk) (dir : String) (r : Request) : Except LoadError Value :=
  match path? dir r.endpoint with
  | none => .error (.failed r.endpoint "endpoint is not a relative path")
  | some path =>
    match disk path with
    | .error .missing => .error (.notFound r.endpoint)
    | .error e => .error (.failed r.endpoint e.message)
    | .ok text =>
      match Value.ofText text with
      | .ok v => .ok v
      | .error f => .error (.failed r.endpoint (path ++ ": " ++ f.message))

/-- A device that answers from files.  Reading a file takes time, however short. -/
def device (disk : Disk) (dir : String) : Device := fun r =>
  { answer := load disk dir r, delay := if (path? dir r.endpoint).isSome then 1 else 0 }

end DeviceStats.Fixtures
