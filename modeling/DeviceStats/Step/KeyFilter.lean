import DeviceStats.Pattern
import DeviceStats.Step.Fault

/-!
# Step/KeyFilter — keys kept or dropped

A key filter lists names.  A key is listed when it equals a name or a name, read as a pattern,
matches it.  Keeping looks at the keys of the outermost object only, dropping at every depth.
-/

namespace DeviceStats

open Json (Value Decoder Field)

inductive KeyFilter
  | keep (names : List String)
  | drop (names : List String)
deriving DecidableEq, Repr

namespace KeyFilter

/-! ## Declared form -/

/-- A filter has a list of names under `include` or under `exclude`, not both. -/
def decode : StepDecoder KeyFilter := fun v => do
  let (kept, dropped) ← Decoder.record "RawFilterKeys" [
    .given "include" (Decoder.optional (Decoder.list Decoder.string)) fun s names => (names, s.2),
    .given "exclude" (Decoder.optional (Decoder.list Decoder.string)) fun s names => (s.1, names)]
    ((none, none) : Option (List String) × Option (List String)) v
  match kept, dropped with
  | some _, some _ => .error (.refused .filterKeepsAndDrops)
  | some names, none => return .keep names
  | none, some names => return .drop names
  | none, none => .error (.refused .filterEmpty)

def encode : KeyFilter → Value
  | .keep names => .obj [("include", .arr (names.map .str))]
  | .drop names => .obj [("exclude", .arr (names.map .str))]

/-! ## Effect -/

/-- A listed name: a text and a pattern. -/
structure Entry where
  name : String
  pattern : Pattern

def Entry.ofName (name : String) : Entry := ⟨name, .ofString name⟩

/-- Whether a key is listed. -/
def lists (entries : List Entry) (key : String) : Bool :=
  entries.any fun e => e.name == key || e.pattern.isMatch key

mutual

/-- A value without the listed keys, at every depth. -/
def without (entries : List Entry) : Value → Value
  | .arr items => .arr (withoutItems entries items)
  | .obj fields => .obj (withoutFields entries fields)
  | v => v

def withoutItems (entries : List Entry) : List Value → List Value
  | [] => []
  | v :: vs => without entries v :: withoutItems entries vs

def withoutFields (entries : List Entry) : List (String × Value) → List (String × Value)
  | [] => []
  | (k, v) :: rest =>
    if lists entries k then withoutFields entries rest
    else (k, without entries v) :: withoutFields entries rest

end

def apply (filter : KeyFilter) (v : Value) : Value :=
  match filter, v with
  | .keep names, .obj fields =>
    let entries := names.map Entry.ofName
    .obj (fields.filter fun kv => lists entries kv.1)
  | .keep _, v => v
  | .drop names, v => without (names.map Entry.ofName) v

end KeyFilter

end DeviceStats
