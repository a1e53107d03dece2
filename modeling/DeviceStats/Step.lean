import DeviceStats.Step.KeyFilter
import DeviceStats.Step.Reduction
import DeviceStats.Step.Renaming
import DeviceStats.Step.Tagging
import DeviceStats.Step.Timestamps

/-!
# Step — the steps of a normalization

A step is declared as an object whose one name says what is done and whose value holds the options.
-/

namespace DeviceStats

open Json (Value Decoder)

inductive Step
  | filterKeys (filter : KeyFilter)
  | renameKeys (renames : Renaming)
  | formatTimestamps (keys : List String)
  | addKeysByTag (step : TaggingStep)
  | runFunctions (calls : List RoutineCall)
  | convertArrayToMap (key : ArrayKey)
  | includeFirstEntry (first : FirstEntry)

namespace Step

def name : Step → String
  | .filterKeys _ => "filterKeys"
  | .renameKeys _ => "renameKeys"
  | .formatTimestamps _ => "formatTimestamps"
  | .addKeysByTag _ => "addKeysByTag"
  | .runFunctions _ => "runFunctions"
  | .convertArrayToMap _ => "convertArrayToMap"
  | .includeFirstEntry _ => "includeFirstEntry"

def names : List String := [
  "filterKeys", "renameKeys", "formatTimestamps", "addKeysByTag", "runFunctions",
  "convertArrayToMap", "includeFirstEntry"]

/-! ## Declared form -/

def decode : StepDecoder Step := fun v => do
  let (name, content) ← Decoder.variant names v
  match name with
  | "filterKeys" => return .filterKeys (← KeyFilter.decode content)
  | "renameKeys" => return .renameKeys (← Renaming.decode content)
  | "formatTimestamps" => return .formatTimestamps (← Decoder.list Decoder.string content)
  | "addKeysByTag" => return .addKeysByTag (← TaggingStep.decode content)
  | "runFunctions" => return .runFunctions (← Decoder.list RoutineCall.decode content)
  | "convertArrayToMap" => return .convertArrayToMap (← ArrayKey.decode content)
  | _ => return .includeFirstEntry (← FirstEntry.decode content)

def encode (s : Step) : Value :=
  let content : Value :=
    match s with
    | .filterKeys filter => filter.encode
    | .renameKeys r => r.encode
    | .formatTimestamps keys => .arr (keys.map .str)
    | .addKeysByTag step => step.encode
    | .runFunctions calls => .arr (calls.map RoutineCall.encode)
    | .convertArrayToMap key => key.encode
    | .includeFirstEntry first => first.encode
  .obj [(s.name, content)]

/-! ## Effect -/

/-- Whether a step reduces the response, with options of its own. -/
def reduces : Step → Bool
  | .convertArrayToMap _ => true
  | .includeFirstEntry _ => true
  | _ => false

/-- Runs routines one after the other. -/
def runCalls (calls : List RoutineCall) (v : Value) : Except TransformError Value :=
  calls.foldlM (fun v c => (c.run v).mapError (.routine c.routine)) v

def apply (defaults : TagDefaults) (s : Step) (v : Value) : Except TransformError Value :=
  match s with
  | .filterKeys filter => .ok (filter.apply v)
  | .renameKeys r => .ok (r.apply v)
  | .formatTimestamps keys => .ok (Timestamps.apply keys v)
  | .addKeysByTag step =>
    match step.tagging? with
    | some t => .ok (t.apply defaults v)
    | none => .ok v
  | .runFunctions calls => runCalls calls v
  | .convertArrayToMap key => Reduction.apply { arrayKey? := some key } v
  | .includeFirstEntry first => Reduction.apply { firstEntry? := some first } v

end Step

end DeviceStats
