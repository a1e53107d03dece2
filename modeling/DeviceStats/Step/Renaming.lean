import DeviceStats.Pattern
import DeviceStats.Step.Fault
import DeviceStats.Text.Split

/-!
# Step/Renaming — new names for keys

A renaming is a list of maps from triggers to rules.  A key passes through the maps in order; in
each map the first rule whose trigger occurs in the key gives the new key.  An exact rule fires
only when its trigger is the whole key.  Keys are renamed at every depth; of several keys with one
new name the first gives its place and the last its value.
-/

namespace DeviceStats

open Json (Value Decoder Field)

/-- How a key is renamed.  `whole?` overrides whether triggers have to be whole keys. -/
inductive RenameRule
  | constant (text : String) (whole? : Option Bool)
  | replace (old new : String) (whole? : Option Bool)
  | capture (pattern : String) (group? : Option Nat) (whole? : Option Bool)
  /-- A constant written as a bare text. -/
  | bare (text : String)
deriving DecidableEq, Repr

structure Renaming where
  maps : List (Named RenameRule)
  exact : Bool
deriving DecidableEq, Repr

namespace RenameRule

def whole? : RenameRule → Option Bool
  | .constant _ e => e
  | .replace _ _ e => e
  | .capture _ _ e => e
  | .bare _ => none

/-! ## Declared form -/

/-- A record that must be written as an object. -/
def object {σ : Type} (fields : List (Field Value StepFault σ)) (start : σ) :
    StepDecoder σ := fun v =>
  match v with
  | .obj _ => Decoder.record "RenameRule" fields start v
  | _ => Decoder.mismatch (.noVariant "RenameRule")

def exactField {σ : Type} (set : σ → Option Bool → σ) : Field Value StepFault σ :=
  .given "exactMatch" (Decoder.optional Decoder.boolean) set

def decodeConstant : StepDecoder RenameRule := fun v => do
  let (text, e) ← object [
    .needed "constant" Decoder.string fun s text => (text, s.2),
    exactField fun s e => (s.1, e)]
    ("", none) v
  return .constant text e

def decodeReplace : StepDecoder RenameRule := fun v => do
  let (old, new, e) ← object [
    .needed "replaceCharacter" Decoder.string fun s old => (old, s.2),
    .needed "withCharacter" Decoder.string fun s new => (s.1, new, s.2.2),
    exactField fun s e => (s.1, s.2.1, e)]
    ("", "", none) v
  return .replace old new e

def decodeCapture : StepDecoder RenameRule := fun v => do
  let (pattern, group, e) ← object [
    .needed "pattern" Decoder.string fun s pattern => (pattern, s.2),
    .given "group" (Decoder.optional Decoder.size) fun s group => (s.1, group, s.2.2),
    exactField fun s e => (s.1, s.2.1, e)]
    ("", none, none) v
  return .capture pattern group e

def decodeBare : StepDecoder RenameRule := fun v => do return .bare (← Decoder.string v)

/-- The first form that fits decides what a rule is. -/
def decode : StepDecoder RenameRule :=
  Decoder.choice "RenameRule" [decodeConstant, decodeReplace, decodeCapture, decodeBare]

def encodeExact : Option Bool → List (String × Value)
  | some e => [("exactMatch", .bool e)]
  | none => []

def encode : RenameRule → Value
  | .constant text e => .obj (("constant", .str text) :: encodeExact e)
  | .replace old new e =>
    .obj (("replaceCharacter", .str old) :: ("withCharacter", .str new) :: encodeExact e)
  | .capture pattern group? e =>
    .obj (("pattern", .str pattern) ::
      ((group?.map fun g => ("group", Value.ofNat g)).toList ++ encodeExact e))
  | .bare text => .str text

/-! ## Effect -/

/-- What a rule makes of a key. -/
def apply (rule : RenameRule) (key : String) : String :=
  match rule with
  | .constant text _ => text
  | .bare text => text
  | .replace old new _ => String.ofList (Text.replace old.toList new.toList key.toList)
  | .capture pattern group? _ => ((Pattern.ofString pattern).capture key (group?.getD 0)).getD key

end RenameRule

namespace Renaming

/-! ## Declared form -/

/-- The rules of one map; a rule that cannot be read is named. -/
def decodeMap (fields : List (String × Value)) : Except StepError (Named RenameRule) :=
  fields.mapM fun (trigger, v) =>
    match RenameRule.decode v with
    | .ok rule => .ok (trigger, rule)
    | .error (.mismatch m) => .error (.refused (.rule trigger m))
    | .error e => .error e

/-- One map or a list of maps. -/
def decodeMaps : StepDecoder (List (Named RenameRule))
  | .obj fields => do return [← decodeMap fields]
  | .arr items => items.mapM fun
    | .obj fields => decodeMap fields
    | v => .error (.refused (.patternsNotMap v))
  | v => .error (.refused (.patternsNotMaps v))

def decodeOptions : StepDecoder Bool :=
  Decoder.record "RenameOptions" [.given "exactMatch" Decoder.boolean fun _ e => e] false

def decode : StepDecoder Renaming :=
  Decoder.record "RenameKeys" [
    .needed "patterns" decodeMaps fun r maps => { r with maps },
    .given "options" decodeOptions fun r exact => { r with exact }]
    ⟨[], false⟩

/-- The maps are written as a list, even if there is but one. -/
def encode (r : Renaming) : Value :=
  .obj [
    ("patterns", .arr (r.maps.map fun m => .obj (Named.mapValues RenameRule.encode m))),
    ("options", .obj [("exactMatch", .bool r.exact)])]

/-! ## Effect -/

/-- Whether a rule fires on a key. -/
def fires (exact : Bool) (trigger : String) (rule : RenameRule) (key : String) : Bool :=
  if rule.whole?.getD exact then key == trigger else Text.occurs trigger.toList key.toList

/-- What a map makes of a key. -/
def renameIn (exact : Bool) (map : Named RenameRule) (key : String) : String :=
  match map.find? fun (trigger, rule) => fires exact trigger rule key with
  | some (_, rule) => rule.apply key
  | none => key

/-- The new name of a key. -/
def rename (r : Renaming) (key : String) : String :=
  r.maps.foldl (fun key map => renameIn r.exact map key) key

mutual

/-- A value with its keys renamed. -/
def apply (r : Renaming) : Value → Value
  | .arr items => .arr (applyItems r items)
  | .obj fields => .obj (Named.ofPairs (applyFields r fields))
  | v => v

def applyItems (r : Renaming) : List Value → List Value
  | [] => []
  | v :: vs => apply r v :: applyItems r vs

/-- The entries of an object with their new names, which may repeat. -/
def applyFields (r : Renaming) : List (String × Value) → List (String × Value)
  | [] => []
  | (k, v) :: rest => (rename r k, apply r v) :: applyFields r rest

end

end Renaming

end DeviceStats
