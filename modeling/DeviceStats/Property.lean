import DeviceStats.Conditional
import DeviceStats.Pipeline
import DeviceStats.Tag.Placement

/-!
# Property — declared properties

A property names what is asked of a device and what is made of the answer.  Its declaration may hold
templates and conditionals; `Property.compile?` settles them for a device, reads the descriptor and
sets up the pipeline.
-/

namespace DeviceStats

open Json (Value Decoder Field Input)

/-! ## Descriptors -/

/-- Where a property stands in a report. -/
structure Placement where
  parent? : Option String := none
  /-- Whether the parent is a folder that can be switched off. -/
  folder : Bool := false
deriving DecidableEq, Repr

namespace Placement

def decode : StepDecoder Placement :=
  Decoder.record "Structure" [
    .given "parentKey" (Decoder.optional Decoder.string) fun p parent? => { p with parent? },
    .given "folder" Decoder.boolean fun p folder => { p with folder }]
    {}

def encode (p : Placement) : Value :=
  .obj ((p.parent?.map fun k => ("parentKey", Value.str k)).toList ++ [("folder", .bool p.folder)])

end Placement

/-- A property as declared. -/
structure Descriptor where
  key : String := ""
  normalization? : Option (List Step) := none
  placement? : Option Placement := none
  disabled : Bool := false
  custom : Bool := false
  keyArgs? : Option Value := none
  tagged : Bool := false
  subjectField? : Option String := none
  filter? : Option KeyFilter := none
  renames? : Option Renaming := none
  timestamps? : Option (List String) := none
  arrayKey? : Option ArrayKey := none
  firstEntry? : Option FirstEntry := none

namespace Descriptor

open Json.Decoder (list boolean string value)

def decode : StepDecoder Descriptor :=
  Decoder.record "PropertyDescriptor" [
    .needed "key" string fun d key => { d with key },
    .given "normalization" (Decoder.optional (list Step.decode)) fun d normalization? =>
      { d with normalization? },
    .given "structure" (Decoder.optional Placement.decode)
      fun d placement? => { d with placement? },
    .given "disabled" boolean fun d disabled => { d with disabled },
    .given "isCustom" boolean fun d custom => { d with custom },
    .given "keyArgs" (Decoder.optional value) fun d keyArgs? => { d with keyArgs? },
    .given "addKeysByTag" boolean fun d tagged => { d with tagged },
    .given "classifyByKeys" (Decoder.optional string)
      fun d subjectField? => { d with subjectField? },
    .given "filterKeys" (Decoder.optional KeyFilter.decode) fun d filter? => { d with filter? },
    .given "renameKeys" (Decoder.optional Renaming.decode) fun d renames? => { d with renames? },
    .given "formatTimestamps" (Decoder.optional (list string))
      fun d timestamps? => { d with timestamps? },
    .given "convertArrayToMap" (Decoder.optional ArrayKey.decode)
      fun d arrayKey? => { d with arrayKey? },
    .given "includeFirstEntry" (Decoder.optional FirstEntry.decode) fun d firstEntry? =>
      { d with firstEntry? }]
    {}

/-- An entry that is written only if it has a value. -/
def entry {α : Type} (name : String) (write : α → Value) (a? : Option α) : List (String × Value) :=
  (a?.map fun a => (name, write a)).toList

def encode (d : Descriptor) : Value :=
  .obj ([("key", .str d.key)] ++
    entry "normalization" (fun steps => .arr (steps.map Step.encode)) d.normalization? ++
    entry "structure" Placement.encode d.placement? ++
    [("disabled", .bool d.disabled), ("isCustom", .bool d.custom)] ++
    entry "keyArgs" id d.keyArgs? ++
    [("addKeysByTag", .bool d.tagged)] ++
    entry "classifyByKeys" .str d.subjectField? ++
    entry "filterKeys" KeyFilter.encode d.filter? ++
    entry "renameKeys" Renaming.encode d.renames? ++
    entry "formatTimestamps" (fun keys => .arr (keys.map .str)) d.timestamps? ++
    entry "convertArrayToMap" ArrayKey.encode d.arrayKey? ++
    entry "includeFirstEntry" FirstEntry.encode d.firstEntry?)

/-! ## What a descriptor asks for -/

/-- The endpoint and the path below it, which may be missing. -/
def keyParts (d : Descriptor) : String × Option String :=
  match Text.splitFirst? [':', ':'] d.key.toList with
  | some (endpoint, child) => (String.ofList endpoint, some (String.ofList child))
  | none => (d.key, none)

def endpoint (d : Descriptor) : String := d.keyParts.1

def childKey? (d : Descriptor) : Option String := d.keyParts.2.filter (!·.isEmpty)

/-- Whether a step tags items. -/
def stepTags : Step → Bool
  | .addKeysByTag step => step.tagging?.isSome
  | _ => false

/-- Whether the items of the property are tagged. -/
def takesTags (d : Descriptor) : Bool :=
  d.tagged || d.normalization?.any fun steps => steps.any stepTags

def stages (d : Descriptor) : Stages :=
  match d.normalization? with
  | some steps => .steps steps
  | none =>
    .sequence {
      reduction := { arrayKey? := d.arrayKey?, firstEntry? := d.firstEntry? }
      filter? := d.filter?
      renames? := d.renames?
      timestamps? := d.timestamps?
      tagging? :=
        if d.tagged then some { options := { subjectField? := d.subjectField? } } else none }

end Descriptor

/-! ## Properties ready to run -/

structure Property where
  name : String
  descriptor : Descriptor
  defaults : TagDefaults

/-- Why a declared property cannot be used. -/
inductive PropertyError
  | condition (e : ConditionError)
  | descriptor (name : String) (e : StepError)
  | noEndpoint (name : String)

def PropertyError.message : PropertyError → String
  | .condition e => e.message
  | .descriptor name e => "Invalid property '" ++ name ++ "': " ++ e.message
  | .noEndpoint name => "Invalid property '" ++ name ++ "': key must name an endpoint"

namespace Property

def endpoint (p : Property) : String := p.descriptor.endpoint

def pipeline (p : Property) : Pipeline :=
  ⟨p.descriptor.childKey?, p.descriptor.stages, p.defaults⟩

def parent? (p : Property) : Option String := p.descriptor.placement?.bind (·.parent?)

def inFolder (p : Property) : Bool := p.descriptor.placement?.any (·.folder)

/-- Where the value of the property stands in a report. -/
def path (p : Property) : List String :=
  match p.parent? with
  | some parent => [parent, p.name]
  | none => [p.name]

/-- The collection whose items are tagged, if the property takes tags. -/
def collection? (p : Property) : Option Tag.Collection :=
  if p.descriptor.takesTags then some ⟨p.path, p.descriptor.subjectField?⟩ else none

/-- A declared property as it is meant for a device; nothing if it is disabled there. -/
def compile? (facts : Facts) (defaults : TagDefaults) (name : String) (declared : Value) :
    Except PropertyError (Option Property) := do
  let rendered ← (Conditional.render facts declared).mapError .condition
  let descriptor ← (Descriptor.decode rendered).mapError (.descriptor name)
  if descriptor.disabled then return none
  else if descriptor.endpoint.isEmpty then .error (.noEndpoint name)
  else return some ⟨name, descriptor, defaults⟩

/-- What is compiled has its name and the descriptor that is read from what was declared. -/
theorem exists_of_compile? {facts : Facts} {defaults : TagDefaults} {name : String}
    {declared : Value} {p : Property} (h : compile? facts defaults name declared = .ok (some p)) :
    ∃ rendered, Conditional.render facts declared = .ok rendered ∧
      Descriptor.decode rendered = .ok p.descriptor ∧ p.name = name := by
  have hmap {ε ε' α : Type} {f : ε → ε'} {x : Except ε α} {a : α} (h : x.mapError f = .ok a) :
      x = .ok a := by
    cases x with
    | error e => cases h
    | ok b => exact congrArg _ (Except.ok.inj h)
  obtain ⟨rendered, hrender, h⟩ := exists_ok_of_bind h
  obtain ⟨descriptor, hdecode, h⟩ := exists_ok_of_bind h
  refine ⟨rendered, hmap hrender, ?_⟩
  split at h
  · cases h
  · split at h <;> cases h
    exact ⟨hmap hdecode, rfl⟩

end Property

end DeviceStats
