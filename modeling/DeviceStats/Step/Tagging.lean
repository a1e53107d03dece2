import DeviceStats.Tag.Injection

/-!
# Step/Tagging — the step that tags items

A step that is merely switched on uses the tags that a declaration gives for all properties; options
give tags and definitions of their own.  Own definitions join those of the declaration and win over
them.
-/

namespace DeviceStats

open Json (Value Object Decoder Field)

/-- The tags and definitions of a declaration. -/
structure TagDefaults where
  tags : Object := []
  definitions : TagDefinitions := []
deriving Inhabited

structure Tagging where
  tags? : Option Object := none
  definitions? : Option TagDefinitions := none
  options : Tag.InjectOptions := {}

namespace Tagging

def decode : StepDecoder Tagging :=
  Decoder.record "AddKeysByTag" [
    .given "tags" (Decoder.optional (Decoder.named Decoder.value)) fun t tags? => { t with tags? },
    .given "definitions" (Decoder.optional (Decoder.named TagDefinition.decode))
      fun t definitions? => { t with definitions? },
    .given "opts" Tag.InjectOptions.decode fun t options => { t with options }]
    {}

def encode (t : Tagging) : Value :=
  .obj ((t.tags?.map fun tags => ("tags", Value.obj tags)).toList ++
    (t.definitions?.map fun ds =>
      ("definitions", Value.obj (ds.mapValues TagDefinition.encode))).toList ++
    [("opts", t.options.encode)])

/-- A value with its items tagged. -/
def apply (defaults : TagDefaults) (t : Tagging) (v : Value) : Value :=
  Tag.inject (defaults.definitions.extend (t.definitions?.getD [])) (t.tags?.getD defaults.tags)
    t.options v

end Tagging

/-- How the step is declared. -/
inductive TaggingStep
  | flag (on : Bool)
  | options (t : Tagging)

namespace TaggingStep

def decode : StepDecoder TaggingStep :=
  Decoder.choice "AddKeysByTagStep" [
    fun v => do return .flag (← Decoder.boolean v),
    fun v => do return .options (← Tagging.decode v)]

def encode : TaggingStep → Value
  | .flag on => .bool on
  | .options t => t.encode

/-- The tagging that a step asks for, if any. -/
def tagging? : TaggingStep → Option Tagging
  | .flag on => if on then some {} else none
  | .options t => some t

end TaggingStep

end DeviceStats
