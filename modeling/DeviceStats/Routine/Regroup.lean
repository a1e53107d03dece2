import DeviceStats.Routine.Fault
import DeviceStats.Routine.Numbers
import DeviceStats.Text.Split

/-!
# Routine/Regroup — keys taken apart

`firstKey` takes the first key of an object, `byRule` groups entries named `rule:event` by rule.
-/

namespace DeviceStats.Regroup

open Json (Value Object)

/-- The first key of an object: with `splitOnValue` what follows the last occurrence of a text in
it, and with `keyPrefix` a text in front. -/
def firstKey (args : Object) (v : Value) : Except RoutineFault Value :=
  match v with
  | .obj ((key, _) :: _) =>
    let short :=
      match Numbers.textArgument? args "splitOnValue" with
      | some sep =>
        if sep.isEmpty then key
        else
          match Text.splitLast? sep.toList key.toList with
          | some (_, after) => String.ofList after
          | none => key
      | none => key
    .ok (.str ((Numbers.textArgument? args "keyPrefix").getD "" ++ short))
  | _ => .error .noFirstKey

/-- Puts an entry into the events of a rule.  A rule or an `events` that is there but no object
stays as it is. -/
def addEvent (o : Object) (rule event : String) (stats : Value) : Object :=
  match (o.get? rule).getD (.obj []) with
  | .obj r =>
    match (Named.get? r "events").getD (.obj []) with
    | .obj events =>
      o.insert rule (.obj (Named.insert r "events" (.obj (Named.insert events event stats))))
    | _ => o
  | _ => o

/-- Puts an entry where its key says: under the rule before the last colon, or as it is. -/
def add (o : Object) (key : String) (stats : Value) : Object :=
  match Text.splitLast? [':'] key.toList with
  | some (rule, event) => addEvent o (String.ofList rule) (String.ofList event) stats
  | none => o.insert key stats

/-- The entries of an object grouped by rule. -/
def byRule : Value → Except RoutineFault Value
  | .obj fields => .ok (.obj (fields.foldl (fun o kv => add o kv.1 kv.2) []))
  | _ => .error .notObject

end DeviceStats.Regroup
