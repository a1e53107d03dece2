import DeviceStats.NameSet
import DeviceStats.Action
import DeviceStats.Property

/-!
# Declaration — what is to be collected

A declaration names properties, tags for all of them, definitions that tags refer to, actions, and
folders that are switched off.  Compiling it for a device judges every property by itself.
-/

namespace DeviceStats

open Json (Value Object Decoder Field Input DecodeError)

structure Declaration where
  /-- The declared properties by name, in order. -/
  stats : Object := []
  definitions : TagDefinitions := []
  globalTags : Object := []
  actions : List Action := []
  disabledFolders : NameSet := []

/-- Why a declaration cannot be read. -/
inductive DeclarationError
  | unreadable (e : DecodeError ActionError)
  | noFile (path cause : String)

def DeclarationError.message : DeclarationError → String
  | .unreadable (.mismatch m) => "Invalid declaration: " ++ m.message
  | .unreadable (.refused e) => "Invalid declaration: " ++ e.message
  | .noFile path cause => "Invalid declaration: cannot read " ++ path ++ ": " ++ cause

namespace Declaration

/-! ## Reading -/

section Decoders

open Json.Decoder (list named string value)

variable {α ε : Type} [Input α]

/-- The tags given for all properties. -/
def decodeGlobal : Decoder α ε Object :=
  Decoder.record "GlobalOptions" [
    .given "addKeysByTag"
      (Decoder.record "GlobalTags" [.given "tags" (named value) fun _ tags => tags] [])
      fun _ tags => tags]
    []

def decodeFolders : Decoder α ε NameSet :=
  Decoder.record "FilterOptions" [
    .given "disabledFolders" (list string) fun _ names => .ofList names]
    []

def decodeActions : Decoder α ActionError (List Action) := fun a => do
  (Action.decodeAll (← list value a)).mapError .refused

def decode : Decoder α ActionError Declaration :=
  Decoder.record "Declaration" [
    .given "stats" (named value) fun d stats => { d with stats },
    .given "definitions" (named TagDefinition.decode) fun d definitions => { d with definitions },
    .given "global" decodeGlobal fun d globalTags => { d with globalTags },
    .given "actions" decodeActions fun d actions => { d with actions },
    .given "filter" decodeFolders fun d disabledFolders => { d with disabledFolders }]
    {}

end Decoders

def ofValue (v : Value) : Except DeclarationError Declaration := (decode v).mapError .unreadable

def ofText (text : String) : Except DeclarationError Declaration :=
  (Decoder.ofText decode text).mapError .unreadable

/-! ## Compiling -/

def defaults (d : Declaration) : TagDefaults := ⟨d.globalTags, d.definitions⟩

/-- What a declared property is for a device. -/
abbrev Verdict := Except PropertyError (Option Property)

/-- What every declared property is for a device, in order. -/
def verdicts (d : Declaration) (facts : Facts) : List (String × Verdict) :=
  d.stats.map fun (name, declared) => (name, Property.compile? facts d.defaults name declared)

def compiled? : Verdict → Option Property
  | .ok p => p
  | .error _ => none

def rejected? : String × Verdict → Option (String × PropertyError)
  | (name, .error e) => some (name, e)
  | _ => none

/-- The properties that are collected from a device. -/
def properties (d : Declaration) (facts : Facts) : List Property :=
  (d.verdicts facts).filterMap fun nv => compiled? nv.2

/-- The declared properties that cannot be used. -/
def rejections (d : Declaration) (facts : Facts) : List (String × PropertyError) :=
  (d.verdicts facts).filterMap rejected?

/-- How many properties there are; the first that cannot be used is reported instead. -/
def countValid (facts : Facts) (defaults : TagDefaults) : Object → Except PropertyError Nat
  | [] => .ok 0
  | (name, declared) :: rest => do
    let p ← Property.compile? facts defaults name declared
    let n ← countValid facts defaults rest
    return if p.isSome then n + 1 else n

def validate (d : Declaration) (facts : Facts) : Except PropertyError Nat :=
  countValid facts d.defaults d.stats

/-- The collections whose items take tags. -/
def collections (properties : List Property) : List Tag.Collection :=
  properties.filterMap Property.collection?

end Declaration

end DeviceStats
