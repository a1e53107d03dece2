import DeviceStats.Pattern
import DeviceStats.Step.Fault

/-!
# Tag/Definition — named patterns for tags
-/

namespace DeviceStats

open Json (Value Decoder Field Input)

/-- A pattern and the group of it that gives a tag its text; without a group it is the whole match.
-/
structure TagDefinition where
  pattern : String
  group? : Option Nat
deriving DecidableEq, Repr

namespace TagDefinition

/-- The text that a definition takes from a subject, if its pattern matches. -/
def capture (d : TagDefinition) (subject : String) : Option String :=
  (Pattern.ofString d.pattern).capture subject (d.group?.getD 0)

variable {α ε : Type} [Input α]

def decode : Decoder α ε TagDefinition :=
  Decoder.record "TagDefinition" [
    .needed "pattern" Decoder.string fun d pattern => { d with pattern },
    .given "group" (Decoder.optional Decoder.size) fun d group? => { d with group? }]
    ⟨"", none⟩

def encode (d : TagDefinition) : Value :=
  .obj (("pattern", .str d.pattern) :: (d.group?.map fun g => ("group", Value.ofNat g)).toList)

end TagDefinition

abbrev TagDefinitions := Named TagDefinition

end DeviceStats
